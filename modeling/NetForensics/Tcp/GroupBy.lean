import NetForensics.Tcp.Tables
import NetForensics.Util.GroupBy

/-!
# TCP aggregation

While neither table evicts, the snapshot is the group-by of the packets since the last reset: a
record for each remote end, the sum of its packets; a record for each network, the sum of the
remotes in it and their number; and totals that are the sum over all remotes.

The counters are compared as numbers (`TcpTally`), which the bound on the number of packets makes
possible. The remote end of a packet is `remoteEnd`: the public side when both IPv4 addresses are
non-zero and exactly one of them is private, otherwise the destination.
-/

namespace NetForensics

open CountTable

/-! ## Tallies -/

/-- Packets, SYNs, FINs, RSTs, repeated SYNs and bytes, as numbers. -/
abbrev TcpTally := ℕ × ℕ × ℕ × ℕ × ℕ × ℕ

def TcpCounters.tally (c : TcpCounters) : TcpTally :=
  (c.pktCount.toNat, c.synCount.toNat, c.finCount.toNat, c.rstCount.toNat, c.synRetrans.toNat,
    c.bytesEst.toNat)

abbrev MarkedPacket := CpeTcpPacket × Bool

def MarkedPacket.tally (m : MarkedPacket) : TcpTally :=
  (1, (isSyn m.1).toNat, (hasFlag m.1.flags cpeTcpFlagFin).toNat,
    (hasFlag m.1.flags cpeTcpFlagRst).toNat, m.2.toNat, m.1.ipLen.toNat)

theorem TcpCounters.tally_zero : TcpCounters.tally {} = 0 := rfl

theorem TcpCounters.tally_bump {n : ℕ} {c : TcpCounters} (h : c.Bounded n) (hn : n + 1 < 2 ^ 32)
    (p : CpeTcpPacket) (retrans : Bool) :
    (c.bump (packetBits p retrans) p.ipLen).tally
      = c.tally + MarkedPacket.tally (p, retrans) := by
  rw [tally, bump_pktCount h hn, bump_synCount h hn, bump_finCount h hn, bump_rstCount h hn,
    bump_synRetrans h hn, bump_bytesEst h hn]
  rfl

/-! ## Remote ends and networks -/

/-- The remote end of a packet: the public side when both IPv4 addresses are non-zero and exactly
one of them is private, otherwise the destination. -/
def remoteEnd (p : CpeTcpPacket) : CStr :=
  if p.isIpv6 = false ∧ ip4Parse p.srcIp ≠ 0 ∧ ip4Parse p.dstIp ≠ 0 ∧
      isPrivateV4 (ip4Parse p.srcIp) = false ∧ isPrivateV4 (ip4Parse p.dstIp) = true then p.srcIp
  else p.dstIp

/-- The network of an address text, if it is an IPv4 address other than `0.0.0.0`: the leading
`plen` bits, and the length behind a slash. -/
def networkOf (plen : ℕ) (ip : CStr) : Option CStr :=
  if ip4Parse ip = 0 then none
  else some (inetNtop4 (UInt32.ofNat ((ip4Parse ip).toNat / 2 ^ (32 - plen) * 2 ^ (32 - plen)))
    ++ 47 :: decimal plen)

theorem CpeTcpPacket.Addressed.length_lt {p : CpeTcpPacket} (h : p.Addressed) :
    p.srcIp.length < 48 ∧ p.dstIp.length < 48 := by
  cases h with
  | v4 src dst _ hsrc hdst =>
    rw [hsrc, hdst]
    exact ⟨lt_of_le_of_lt (length_inetNtop4_le src) (by decide),
      lt_of_le_of_lt (length_inetNtop4_le dst) (by decide)⟩
  | v6 src dst _ hsrc hdst =>
    rw [hsrc, hdst]
    exact ⟨length_inetNtop6_lt src, length_inetNtop6_lt dst⟩

theorem endpoints_remoteIp {p : CpeTcpPacket} (h : p.Addressed) :
    (endpoints p).remoteIp = remoteEnd p := by
  have hsrc : copyStr 48 p.srcIp = p.srcIp := copyStr_of_length_lt h.length_lt.1
  have hdst : copyStr 48 p.dstIp = p.dstIp := copyStr_of_length_lt h.length_lt.2
  rw [endpoints, remoteEnd]
  cases p.isIpv6 with
  | true => simp [outbound, hdst]
  | false =>
    by_cases hs : ip4Parse p.srcIp = 0
    · simp [hs, outbound, hdst]
    by_cases hd : ip4Parse p.dstIp = 0
    · simp [hd, outbound, hdst]
    cases hps : isPrivateV4 (ip4Parse p.srcIp) <;> cases hpd : isPrivateV4 (ip4Parse p.dstIp) <;>
      simp [hs, hd, outbound, inbound, hsrc, hdst]

theorem ip4Parse_inetNtop6 (a : In6Addr) : ip4Parse (inetNtop6 a) = 0 := by
  rw [ip4Parse, inetPton4_of_colon (colon_mem_inetNtop6 a)]
  rfl

private theorem and_leading_bits (a k l : ℕ) (ha : a < 2 ^ (l + k)) :
    a &&& (2 ^ l - 1) * 2 ^ k = a / 2 ^ k * 2 ^ k := by
  apply Nat.eq_of_testBit_eq
  intro i
  rw [Nat.testBit_and, Nat.testBit_mul_two_pow, Nat.testBit_two_pow_sub_one,
    Nat.testBit_mul_two_pow, Nat.testBit_div_two_pow]
  by_cases hk : k ≤ i
  · rw [Nat.sub_add_cancel hk]
    by_cases hl : i - k < l
    · simp [hk, hl]
    · have hbit : a.testBit i = false :=
        Nat.testBit_lt_two_pow (ha.trans_le (Nat.pow_le_pow_right two_pos (by omega)))
      simp [hbit]
  · simp [hk]

private theorem toNat_prefixMask {l : UInt8} (hl : 1 ≤ l.toNat ∧ l.toNat ≤ 32) :
    (prefixMask l).toNat = (2 ^ l.toNat - 1) * 2 ^ (32 - l.toNat) := by
  have hall : ∀ n : Fin 33, n.val ≠ 0 →
      (prefixMask (UInt8.ofNat n)).toNat = (2 ^ n.val - 1) * 2 ^ (32 - n.val) := by
    decide +kernel
  have h := hall ⟨l.toNat, by omega⟩ (Nat.one_le_iff_ne_zero.mp hl.1)
  rwa [UInt8.ofNat_toNat] at h

theorem prefixFromIp4_eq_network (a : UInt32) {l : UInt8} (hl : 1 ≤ l.toNat ∧ l.toNat ≤ 32) :
    prefixFromIp4 a l 64
      = inetNtop4 (UInt32.ofNat (a.toNat / 2 ^ (32 - l.toNat) * 2 ^ (32 - l.toNat)))
        ++ 47 :: decimal l.toNat := by
  have hbits : (a &&& prefixMask l).toNat = a.toNat / 2 ^ (32 - l.toNat) * 2 ^ (32 - l.toNat) := by
    have hlt : a.toNat < 2 ^ (l.toNat + (32 - l.toNat)) := by
      rw [Nat.add_sub_cancel' hl.2]
      exact a.toNat_lt
    rw [UInt32.toNat_and, toNat_prefixMask hl, and_leading_bits _ _ _ hlt]
  rw [prefixFromIp4_eq a hl, ← hbits, UInt32.ofNat_toNat]

/-- The prefix `apply_packet` counts is the network of the remote end. -/
theorem map_prefixAddr {p : CpeTcpPacket} (h : p.Addressed) {plen : UInt8}
    (hlen : 1 ≤ plen.toNat ∧ plen.toNat ≤ 32) :
    (prefixAddr p).map (fun a ↦ prefixFromIp4 a plen 64) = networkOf plen.toNat (remoteEnd p) := by
  rw [prefixAddr, networkOf, endpoints_remoteIp h]
  simp only [prefixFromIp4_eq_network _ hlen]
  cases h with
  | v4 src dst hfam hsrc hdst =>
    rw [hfam, if_neg Bool.false_ne_true]
    by_cases hzero : ip4Parse (remoteEnd p) = 0 <;> simp [hzero]
  | v6 src dst hfam hsrc hdst =>
    have hend : remoteEnd p = inetNtop6 dst := by
      rw [remoteEnd, hfam, hdst]
      simp
    rw [hfam, hend, ip4Parse_inetNtop6]
    rfl

/-! ## Sequences of packets -/

/-- A packet with the clocks it is applied at. -/
structure TcpInput where
  pkt : CpeTcpPacket
  nowMs : UInt64
  clock : Option WallClock

/-- `apply_packet` over a sequence of packets. -/
def CpeTcpState.applyPackets (st : CpeTcpState) (xs : List TcpInput) : CpeTcpState :=
  xs.foldl (fun st x ↦ applyPacket st x.pkt x.nowMs x.clock) st

/-- The packets of a sequence, each with whether it repeats a SYN of the window it meets. -/
def markRetrans (w : SynWindow) : List TcpInput → List MarkedPacket
  | [] => []
  | x :: xs => (x.pkt, (noteSyn w x.pkt).2) :: markRetrans (noteSyn w x.pkt).1 xs

/-- What the packets of a sequence add, and to which remote. -/
def touches (ms : List MarkedPacket) : List (CStr × TcpTally) :=
  ms.map fun m ↦ (remoteEnd m.1, m.tally)

/-- The group-by that the snapshot is while nothing is evicted, as an invariant. -/
structure Aggregates (plen : ℕ) (ms : List MarkedPacket) (s : CpeTcpSnapshot) : Prop where
  tables : TablesOk ms.length s
  remotes : Groups CpeTcpRemote.remoteIp (fun r ↦ r.tally) (touches ms) s.remotes
  prefixes : Rollup (networkOf plen) CpeTcpRemote.remoteIp (fun r ↦ r.tally) CpeTcpPrefix.pfx
    (fun x ↦ (x.tally, x.remoteCount.toNat)) s.remotes s.prefixes
  total : s.total.tally = sumOn CpeTcpRemote.remoteIp (fun r ↦ r.tally) (fun _ ↦ true) s.remotes

theorem Aggregates.remoteCount_le {plen : ℕ} {ms : List MarkedPacket} {s : CpeTcpSnapshot}
    (h : Aggregates plen ms s) {x : CpeTcpPrefix} (hx : x ∈ s.prefixes) :
    x.remoteCount.toNat ≤ cpeTcpRemoteMax := by
  have hval := congrArg Prod.snd (h.prefixes.val_eq x hx)
  rw [sumOn_snd] at hval
  exact hval.trans_le ((List.length_filter_le _ _).trans h.tables.remotes_le)

/-! ## One packet -/

section Step

variable {ms : List MarkedPacket} {st : CpeTcpState} {p : CpeTcpPacket}
  (hn : ms.length + 1 < 2 ^ 32)
include hn

theorem tally_bumpRemote (h : TablesOk ms.length st.snap) (retrans : Bool) (nowMs : UInt64)
    {a : CpeTcpRemote} (ha : a ∈ st.snap.remotes) :
    (bumpRemote p retrans nowMs a).tally = a.tally + MarkedPacket.tally (p, retrans) :=
  TcpCounters.tally_bump (h.remotes_ok a ha).2 hn p retrans

theorem tally_bumpRemote_fresh (retrans : Bool) (nowMs : UInt64) (ip : CStr) :
    (bumpRemote p retrans nowMs (freshRemote ip)).tally = MarkedPacket.tally (p, retrans) := by
  have h := TcpCounters.tally_bump (TcpCounters.bounded_zero ms.length) hn p retrans
  rwa [TcpCounters.tally_zero, zero_add] at h

/-- The test `pkt_count == 1` finds out whether the remote is new. -/
theorem firstTouch_eq (h : TablesOk ms.length st.snap) {retrans : Bool} {nowMs : UInt64}
    {ip : CStr} {remotes : List CpeTcpRemote} {r : CpeTcpRemote}
    (hg : Grown CpeTcpRemote.remoteIp freshRemote st.snap.remotes ip
      (bumpRemote p retrans nowMs) remotes r) :
    (r.pktCount == 1) = decide (ip ∉ st.snap.remotes.map CpeTcpRemote.remoteIp) := by
  have h1 : (1 : UInt32).toNat = 1 := rfl
  cases hg with
  | hit l a t hsplit hka =>
    -- a record in the table has counted a packet before this one
    have hmem : a ∈ st.snap.remotes := by
      rw [hsplit]
      exact List.mem_append_right _ List.mem_cons_self
    obtain ⟨hpos, hb⟩ := h.remotes_ok a hmem
    have hcount := TcpCounters.bump_pktCount hb hn (packetBits p retrans) p.ipLen
    have hne : (bumpRemote p retrans nowMs a).pktCount ≠ 1 := by
      intro heq
      rw [← UInt32.toNat_inj] at heq
      exact absurd (hcount.symm.trans heq) (by omega)
    have hold : ip ∈ st.snap.remotes.map CpeTcpRemote.remoteIp := hka ▸ List.mem_map_of_mem hmem
    rw [beq_eq_false_iff_ne.mpr hne, decide_eq_false (not_not.mpr hold)]
  | append habsent =>
    have hcount := TcpCounters.bump_pktCount (TcpCounters.bounded_zero ms.length) hn
      (packetBits p retrans) p.ipLen
    have heq : (bumpRemote p retrans nowMs (freshRemote ip)).pktCount = 1 :=
      UInt32.toNat_inj.mp hcount
    rw [beq_iff_eq.mpr heq, decide_eq_true habsent]

theorem Aggregates.bumpPrefix_eq {plen : ℕ} (h : Aggregates plen ms st.snap)
    (retrans firstTouch : Bool) {x : CpeTcpPrefix} (hx : x ∈ st.snap.prefixes) :
    ((bumpPrefix p retrans firstTouch x).tally,
        (bumpPrefix p retrans firstTouch x).remoteCount.toNat)
      = (x.tally, x.remoteCount.toNat) + (MarkedPacket.tally (p, retrans), firstTouch.toNat) := by
  have hcount : x.remoteCount.toNat + 1 < 2 ^ 32 :=
    lt_of_le_of_lt (Nat.succ_le_succ (h.remoteCount_le hx)) (by decide)
  exact Prod.ext (TcpCounters.tally_bump (h.tables.prefixes_ok x hx).2 hn p retrans)
    (TcpCounters.toNat_ite_add_one firstTouch hcount)

theorem bumpPrefix_fresh (retrans firstTouch : Bool) (pfx : CStr) :
    ((bumpPrefix p retrans firstTouch (freshPrefix pfx)).tally,
        (bumpPrefix p retrans firstTouch (freshPrefix pfx)).remoteCount.toNat)
      = (MarkedPacket.tally (p, retrans), firstTouch.toNat) := by
  have h := TcpCounters.tally_bump (TcpCounters.bounded_zero ms.length) hn p retrans
  rw [TcpCounters.tally_zero, zero_add] at h
  have hcount := TcpCounters.toNat_ite_add_one (x := 0) firstTouch (by decide)
  exact Prod.ext h (hcount.trans (Nat.zero_add _))

/-- The networks after a packet for whose remote and network there is room. -/
theorem Aggregates.rollup_applyPacket (h : Aggregates st.plen.toNat ms st.snap)
    (hlen : 1 ≤ st.plen.toNat ∧ st.plen.toNat ≤ 32) (hp : p.Addressed) {nowMs : UInt64}
    {clock : Option WallClock} {r : CpeTcpRemote}
    (hg : Grown CpeTcpRemote.remoteIp freshRemote st.snap.remotes (remoteEnd p)
      (bumpRemote p (noteSyn st.syns p).2 nowMs) (applyPacket st p nowMs clock).snap.remotes r)
    (hpre : (prefixAddr p = none ∧
        (applyPacket st p nowMs clock).snap.prefixes = st.snap.prefixes) ∨
      ∃ a x, prefixAddr p = some a ∧
        Touched CpeTcpPrefix.pfx freshPrefix cpeTcpPrefixMax st.snap.prefixes
          (prefixFromIp4 a st.plen 64)
          (bumpPrefix p (noteSyn st.syns p).2 (r.pktCount == 1))
          (applyPacket st p nowMs clock).snap.prefixes x)
    (hroom : ∀ t, networkOf st.plen.toNat (remoteEnd p) = some t →
      t ∉ st.snap.prefixes.map CpeTcpPrefix.pfx → st.snap.prefixes.length < cpeTcpPrefixMax) :
    Rollup (networkOf st.plen.toNat) CpeTcpRemote.remoteIp (fun r ↦ r.tally) CpeTcpPrefix.pfx
      (fun x ↦ (x.tally, x.remoteCount.toNat)) (applyPacket st p nowMs clock).snap.remotes
      (applyPacket st p nowMs clock).snap.prefixes := by
  have hnet := map_prefixAddr hp hlen
  have hfresh := freshRemote_remoteIp p
  rw [endpoints_remoteIp hp] at hfresh
  have hfirst := firstTouch_eq hn h.tables hg
  -- a known remote adds its packet to its network, a new one adds itself as well
  have hhit : ∀ a ∈ st.snap.remotes, a.remoteIp = remoteEnd p →
      ((bumpRemote p (noteSyn st.syns p).2 nowMs a).tally, 1)
        = (a.tally, 1) + (MarkedPacket.tally (p, (noteSyn st.syns p).2),
          (r.pktCount == 1).toNat) := by
    intro a ha hka
    have hold : remoteEnd p ∈ st.snap.remotes.map CpeTcpRemote.remoteIp :=
      hka ▸ List.mem_map_of_mem ha
    rw [tally_bumpRemote hn h.tables _ nowMs ha, hfirst, decide_eq_false (not_not.mpr hold)]
    rfl
  have hnew : remoteEnd p ∉ st.snap.remotes.map CpeTcpRemote.remoteIp →
      ((bumpRemote p (noteSyn st.syns p).2 nowMs (freshRemote (remoteEnd p))).tally, 1)
        = (MarkedPacket.tally (p, (noteSyn st.syns p).2), (r.pktCount == 1).toNat) := by
    intro habsent
    rw [tally_bumpRemote_fresh hn _ nowMs _, hfirst, decide_eq_true habsent]
    rfl
  obtain ⟨hnone, heq⟩ | ⟨a, x, hsome, htouch⟩ := hpre
  · rw [hnone] at hnet
    rw [heq]
    exact h.prefixes.grown_none hg hfresh (fun _ ↦ rfl) hhit hnew hnet.symm
  · rw [hsome] at hnet
    exact h.prefixes.grown_some hg hfresh (fun _ ↦ rfl) hhit hnew hnet.symm
      (htouch.grown (hroom _ hnet.symm)) (freshPrefix_pfx a st.plen) (fun _ ↦ rfl)
      (fun y hy _ ↦ h.bumpPrefix_eq hn _ _ hy) (fun _ ↦ bumpPrefix_fresh hn _ _ _)

theorem aggregates_applyPacket (h : Aggregates st.plen.toNat ms st.snap)
    (hlen : 1 ≤ st.plen.toNat ∧ st.plen.toNat ≤ 32) (hp : p.Addressed)
    (hroom : remoteEnd p ∉ st.snap.remotes.map CpeTcpRemote.remoteIp →
      st.snap.remotes.length < cpeTcpRemoteMax)
    (hroom' : ∀ t, networkOf st.plen.toNat (remoteEnd p) = some t →
      t ∉ st.snap.prefixes.map CpeTcpPrefix.pfx → st.snap.prefixes.length < cpeTcpPrefixMax)
    (nowMs : UInt64) (clock : Option WallClock) :
    Aggregates st.plen.toNat (ms ++ [(p, (noteSyn st.syns p).2)])
      (applyPacket st p nowMs clock).snap := by
  obtain ⟨r, hr, hpre⟩ := touched_applyPacket st p nowMs clock
  have hfresh := freshRemote_remoteIp p
  rw [endpoints_remoteIp hp] at hr hfresh
  have hg := hr.grown hroom
  have hhit : ∀ a ∈ st.snap.remotes, a.remoteIp = remoteEnd p →
      (bumpRemote p (noteSyn st.syns p).2 nowMs a).tally
        = a.tally + MarkedPacket.tally (p, (noteSyn st.syns p).2) :=
    fun a ha _ ↦ tally_bumpRemote hn h.tables _ nowMs ha
  have hnew : remoteEnd p ∉ st.snap.remotes.map CpeTcpRemote.remoteIp →
      (bumpRemote p (noteSyn st.syns p).2 nowMs (freshRemote (remoteEnd p))).tally
        = MarkedPacket.tally (p, (noteSyn st.syns p).2) :=
    fun _ ↦ tally_bumpRemote_fresh hn _ nowMs _
  constructor
  · rw [List.length_append]
    exact tablesOk_applyPacket hn h.tables p nowMs clock
  · rw [touches, List.map_append]
    exact h.remotes.grown hg hfresh (fun _ ↦ rfl) hhit hnew
  · exact h.rollup_applyPacket hn hlen hp hg hpre hroom'
  · rw [hg.sumOn_eq hfresh (fun _ ↦ rfl) hhit hnew, ← h.total, if_pos rfl]
    exact TcpCounters.tally_bump h.tables.total_ok hn p _

end Step

/-! ## Sequences without eviction -/

theorem aggregates_of_cleared {s : CpeTcpSnapshot} (h : s.Cleared) (plen : ℕ) :
    Aggregates plen [] s := by
  obtain ⟨htotal, -, -, -, hrem, hpre⟩ := id h
  constructor
  · exact tablesOk_of_cleared h 0
  · rw [hrem]
    exact groups_nil _ _
  · rw [hrem, hpre]
    exact rollup_nil _ _ _ _ _
  · rw [htotal, hrem]
    rfl

section Room

variable {plen : ℕ} {ms : List MarkedPacket} {s : CpeTcpSnapshot} {ends : List CStr}
  (h : Aggregates plen ms s) (hms : ∀ m ∈ ms, remoteEnd m.1 ∈ ends)
include h hms

theorem Aggregates.remoteIp_mem {ip : CStr} (hip : ip ∈ s.remotes.map CpeTcpRemote.remoteIp) :
    ip ∈ ends := by
  rw [h.remotes.mem_iff, touches, List.map_map, List.mem_map] at hip
  obtain ⟨m, hm, rfl⟩ := hip
  exact hms m hm

theorem Aggregates.remotes_room (hfit : ends.dedup.length ≤ cpeTcpRemoteMax) {ip : CStr}
    (hip : ip ∈ ends) (hnew : ip ∉ s.remotes.map CpeTcpRemote.remoteIp) :
    s.remotes.length < cpeTcpRemoteMax := by
  have hlt := length_lt_of_dedup h.remotes.nodup (fun _ hk ↦ h.remoteIp_mem hms hk) hnew hip hfit
  rwa [List.length_map] at hlt

/-- A new network finds room as long as the networks of all remote ends fit. -/
theorem Aggregates.prefixes_room
    (hfit : (ends.filterMap (networkOf plen)).dedup.length ≤ cpeTcpPrefixMax) {ip t : CStr}
    (hip : ip ∈ ends) (hnet : networkOf plen ip = some t)
    (hnew : t ∉ s.prefixes.map CpeTcpPrefix.pfx) : s.prefixes.length < cpeTcpPrefixMax := by
  have hsub : s.prefixes.map CpeTcpPrefix.pfx ⊆ ends.filterMap (networkOf plen) := by
    intro u hu
    obtain ⟨k, hk, hku⟩ := (h.prefixes.mem_iff u).mp hu
    exact List.mem_filterMap.mpr ⟨k, h.remoteIp_mem hms hk, hku⟩
  have hlt := length_lt_of_dedup h.prefixes.nodup hsub hnew
    (List.mem_filterMap.mpr ⟨ip, hip, hnet⟩) hfit
  rwa [List.length_map] at hlt

end Room

theorem aggregates_applyPackets {plen : ℕ} (hlen : 1 ≤ plen ∧ plen ≤ 32) {ends : List CStr}
    (hfit : ends.dedup.length ≤ cpeTcpRemoteMax)
    (hfit' : (ends.filterMap (networkOf plen)).dedup.length ≤ cpeTcpPrefixMax)
    {ms : List MarkedPacket} {st : CpeTcpState} (h : Aggregates plen ms st.snap)
    (hplen : st.plen.toNat = plen) (hms : ∀ m ∈ ms, remoteEnd m.1 ∈ ends) (xs : List TcpInput)
    (hxs : ∀ x ∈ xs, x.pkt.Addressed ∧ remoteEnd x.pkt ∈ ends)
    (hn : ms.length + xs.length < 2 ^ 32) :
    Aggregates plen (ms ++ markRetrans st.syns xs) (st.applyPackets xs).snap := by
  induction xs generalizing ms st with
  | nil =>
    rw [markRetrans, List.append_nil]
    exact h
  | cons x xs ih =>
    obtain ⟨⟨haddr, hend⟩, hrest⟩ := List.forall_mem_cons.mp hxs
    rw [List.length_cons] at hn
    subst hplen
    -- both tables have room: their keys, and the new one, are among the ends of the whole sequence
    have hstep := aggregates_applyPacket (by omega) h hlen haddr
      (fun hnew ↦ h.remotes_room hms hfit hend hnew)
      (fun t hnet hnew ↦ h.prefixes_room hms hfit' hend hnet hnew) x.nowMs x.clock
    have hms' : ∀ m ∈ ms ++ [(x.pkt, (noteSyn st.syns x.pkt).2)], remoteEnd m.1 ∈ ends := by
      intro m hm
      rcases List.mem_append.mp hm with hm | hm
      · exact hms m hm
      · rw [List.mem_singleton.mp hm]
        exact hend
    have hrun := ih hstep rfl hms' hrest (by
      rw [List.length_append, List.length_singleton]
      omega)
    rw [List.append_assoc] at hrun
    exact hrun

/-- The snapshot is the group-by of a sequence of packets: a record for each remote end, the sum of
its packets; a record for each network, the sum of the remotes in it and their number; and the sum
over all remotes. -/
structure CpeTcpSnapshot.IsGroupBy (plen : ℕ) (ms : List MarkedPacket) (s : CpeTcpSnapshot) :
    Prop where
  remotes_nodup : (s.remotes.map CpeTcpRemote.remoteIp).Nodup
  mem_remotes : ∀ ip, ip ∈ s.remotes.map CpeTcpRemote.remoteIp ↔ ∃ m ∈ ms, remoteEnd m.1 = ip
  remote_eq : ∀ r ∈ s.remotes, r.tally
    = ((ms.filter fun m ↦ remoteEnd m.1 = r.remoteIp).map MarkedPacket.tally).sum
  prefixes_nodup : (s.prefixes.map CpeTcpPrefix.pfx).Nodup
  mem_prefixes : ∀ t, t ∈ s.prefixes.map CpeTcpPrefix.pfx ↔
    ∃ r ∈ s.remotes, networkOf plen r.remoteIp = some t
  prefix_eq : ∀ x ∈ s.prefixes, x.tally
    = ((s.remotes.filter fun r ↦ networkOf plen r.remoteIp = some x.pfx).map fun r ↦ r.tally).sum
  remoteCount_eq : ∀ x ∈ s.prefixes, x.remoteCount.toNat
    = (s.remotes.filter fun r ↦ networkOf plen r.remoteIp = some x.pfx).length
  total_eq : s.total.tally = (s.remotes.map fun r ↦ r.tally).sum

theorem Aggregates.isGroupBy {plen : ℕ} {ms : List MarkedPacket} {s : CpeTcpSnapshot}
    (h : Aggregates plen ms s) : s.IsGroupBy plen ms where
  remotes_nodup := h.remotes.nodup
  mem_remotes ip := by
    rw [h.remotes.mem_iff, touches, List.map_map, List.mem_map]
    rfl
  remote_eq r hr := by
    rw [h.remotes.val_eq hr, touches, List.filter_map, List.map_map]
    rfl
  prefixes_nodup := h.prefixes.nodup
  mem_prefixes t := by
    rw [h.prefixes.mem_iff]
    simp only [List.mem_map, exists_exists_and_eq_and]
  prefix_eq x hx := by
    have hval := congrArg Prod.fst (h.prefixes.val_eq x hx)
    rw [sumOn_fst] at hval
    exact hval
  remoteCount_eq x hx := by
    have hval := congrArg Prod.snd (h.prefixes.val_eq x hx)
    rw [sumOn_snd] at hval
    exact hval
  total_eq := by
    rw [h.total, sumOn, List.filter_true]

/-- After a reset, as long as the remote ends and their networks fit in the tables, the snapshot is
the group-by of the packets applied. -/
theorem isGroupBy_applyPackets (st : CpeTcpState) (clock : Option WallClock)
    (hlen : 1 ≤ st.prefixLen.toNat ∧ st.prefixLen.toNat ≤ 32) (xs : List TcpInput)
    (hparsed : ∀ x ∈ xs, ∃ bytes, cpeTcpParseIpPacket bytes = some x.pkt)
    (hn : xs.length < 2 ^ 32)
    (hremotes : (xs.map fun x ↦ remoteEnd x.pkt).dedup.length ≤ 256)
    (hprefixes : ((xs.map fun x ↦ remoteEnd x.pkt).filterMap
      (networkOf st.prefixLen.toNat)).dedup.length ≤ 128) :
    ((cpeAgentTcpReset st clock).applyPackets xs).snap.IsGroupBy st.prefixLen.toNat
      (markRetrans {} xs) := by
  have hplen : (cpeAgentTcpReset st clock).plen.toNat = st.prefixLen.toNat := by
    have hne : st.prefixLen ≠ 0 := by
      intro h0
      rw [h0] at hlen
      exact absurd hlen.1 (by decide)
    exact congrArg UInt8.toNat (if_neg hne)
  have hxs : ∀ x ∈ xs, x.pkt.Addressed ∧ remoteEnd x.pkt ∈ xs.map fun x ↦ remoteEnd x.pkt := by
    intro x hx
    obtain ⟨bytes, hbytes⟩ := hparsed x hx
    exact ⟨addressed_of_parse hbytes, List.mem_map_of_mem hx⟩
  have hrun := aggregates_applyPackets hlen hremotes hprefixes
    (aggregates_of_cleared (cleared_reset st clock) _) hplen (fun m hm ↦ absurd hm List.not_mem_nil)
    xs hxs (by rwa [List.length_nil, Nat.zero_add])
  exact hrun.isGroupBy

def synBytes (src dst : UInt32) : List UInt8 :=
  [0x45, 0, 0, 40, 0, 0, 0, 0, 64, 6, 0, 0] ++ octets src ++ octets dst ++
    [4, 210, 0, 80, 0, 0, 0, 1, 0, 0, 0, 0, 0x50, 2, 0, 0, 0, 0, 0, 0]

/-- The packet in `synBytes`. -/
def synPacket (src dst : UInt32) : CpeTcpPacket where
  srcIp := inetNtop4 src
  dstIp := inetNtop4 dst
  srcPort := 1234
  dstPort := 80
  flags := 2
  isIpv6 := false
  ipLen := 40
  seq := 1

/-- A connection that is opened twice, and one from outside. -/
theorem isGroupBy_applyPackets_syns :
    ((cpeAgentTcpReset cpeTcpStateInit none).applyPackets
      [⟨synPacket 0xc0a80102 0x01010101, 0, none⟩, ⟨synPacket 0xc0a80102 0x01010101, 5, none⟩,
        ⟨synPacket 0x01010102 0xc0a80102, 9, none⟩]).snap.IsGroupBy 24
      [(synPacket 0xc0a80102 0x01010101, false), (synPacket 0xc0a80102 0x01010101, true),
        (synPacket 0x01010102 0xc0a80102, false)] := by
  have hmarks : markRetrans {} [⟨synPacket 0xc0a80102 0x01010101, 0, none⟩,
      ⟨synPacket 0xc0a80102 0x01010101, 5, none⟩, ⟨synPacket 0x01010102 0xc0a80102, 9, none⟩]
        = [(synPacket 0xc0a80102 0x01010101, false), (synPacket 0xc0a80102 0x01010101, true),
          (synPacket 0x01010102 0xc0a80102, false)] := by
    decide +kernel
  rw [← hmarks]
  refine isGroupBy_applyPackets cpeTcpStateInit none (by decide) _ ?_ (by decide)
    (by decide +kernel) (by decide +kernel)
  intro x hx
  simp only [List.mem_cons, List.not_mem_nil, or_false] at hx
  rcases hx with rfl | rfl | rfl
  · exact ⟨synBytes 0xc0a80102 0x01010101, by decide +kernel⟩
  · exact ⟨synBytes 0xc0a80102 0x01010101, by decide +kernel⟩
  · exact ⟨synBytes 0x01010102 0xc0a80102, by decide +kernel⟩

/-- The public side when exactly one IPv4 side is private, whether or not an address is zero. -/
def publicEnd (p : CpeTcpPacket) : CStr :=
  if p.isIpv6 = false ∧ isPrivateV4 (ip4Parse p.srcIp) = false ∧
      isPrivateV4 (ip4Parse p.dstIp) = true then p.srcIp
  else p.dstIp

/-- With `0.0.0.0` as source the private destination is taken for the remote end. -/
theorem not_groupBy_publicEnd :
    ¬∀ (st : CpeTcpState) (clock : Option WallClock) (xs : List TcpInput),
      1 ≤ st.prefixLen.toNat ∧ st.prefixLen.toNat ≤ 32 →
      (∀ x ∈ xs, ∃ bytes, cpeTcpParseIpPacket bytes = some x.pkt) → xs.length < 2 ^ 32 →
      (xs.map fun x ↦ publicEnd x.pkt).dedup.length ≤ 256 →
      ((xs.map fun x ↦ publicEnd x.pkt).filterMap
        (networkOf st.prefixLen.toNat)).dedup.length ≤ 128 →
      ∀ r ∈ ((cpeAgentTcpReset st clock).applyPackets xs).snap.remotes,
        r.tally = (((markRetrans {} xs).filter fun m ↦ publicEnd m.1 = r.remoteIp).map
          MarkedPacket.tally).sum := by
  intro hgroup
  have h := hgroup cpeTcpStateInit none [⟨synPacket 0 0x0a000001, 0, none⟩] (by decide)
    (fun x hx ↦ ⟨synBytes 0 0x0a000001, by
      rw [List.mem_singleton.mp hx]
      decide +kernel⟩) (by decide) (by decide +kernel) (by decide +kernel)
  revert h
  decide +kernel

end NetForensics
