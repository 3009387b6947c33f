import NetForensics.Json.Line
import NetForensics.Tcp.Tables

/-!
# The lines of a TCP snapshot

`cpe_tcp_format_ndjson` prints the totals, one remote or one prefix. The strings of a snapshot are
addresses printed by the C library, so that whatever was fed, every member but the router id is
sound (`CpeTcpSnapshot.Legible`).
-/

namespace NetForensics

open Json

/-- `cpe_tcp_loss_hint`. Sums and halves of 32-bit counters are exact in a `double`. -/
def cpeTcpLossHint (syn fin rst synRetrans : UInt32) : ℚ :=
  let control : ℚ := syn.toNat + fin.toNat + rst.toNat
  if control < 1 then 0
  else min 1 (float (double ((rst.toNat + synRetrans.toNat / 2) / control)))

def TcpCounters.lossHint (c : TcpCounters) : ℚ :=
  cpeTcpLossHint c.synCount c.finCount c.rstCount c.synRetrans

/-- The counters as they are printed, in a line of any scope. -/
def TcpCounters.members (c : TcpCounters) : List (String × CStr) :=
  [("syn", decimal c.synCount.toNat),
   ("fin", decimal c.finCount.toNat),
   ("rst", decimal c.rstCount.toNat),
   ("syn_retrans", decimal c.synRetrans.toNat),
   ("pkts", decimal c.pktCount.toNat),
   ("bytes", decimal c.bytesEst.toNat)]

/-- The members after the router id, for a remote. -/
def remoteMembers (snap : CpeTcpSnapshot) (r : CpeTcpRemote) : List (String × CStr) :=
  [("scope", quoted (ascii "remote")),
   ("remote_ip", quoted r.remoteIp),
   ("local_ip", quoted r.localIp),
   ("remote_port", decimal r.remotePort.toNat),
   ("local_port", decimal r.localPort.toNat)] ++
  r.toTcpCounters.members ++
  [("loss_hint", fixed 4 r.toTcpCounters.lossHint),
   ("nflog_group", decimal snap.nflogGroup.toNat)]

/-- The members after the router id, for a prefix. -/
def prefixMembers (snap : CpeTcpSnapshot) (x : CpeTcpPrefix) : List (String × CStr) :=
  [("scope", quoted (ascii "prefix")),
   ("prefix", quoted x.pfx)] ++
  x.toTcpCounters.members ++
  [("remotes", decimal x.remoteCount.toNat),
   ("loss_hint", fixed 4 x.toTcpCounters.lossHint),
   ("nflog_group", decimal snap.nflogGroup.toNat)]

/-- The members after the router id, for the totals. -/
def summaryMembers (snap : CpeTcpSnapshot) : List (String × CStr) :=
  ("scope", quoted (ascii "summary")) :: snap.total.members ++
  [("remotes", decimal snap.remotes.length),
   ("prefixes", decimal snap.prefixes.length),
   ("loss_hint", fixed 4 snap.total.lossHint),
   ("prefix_len", decimal snap.prefixLen.toNat),
   ("nflog_group", decimal snap.nflogGroup.toNat),
   ("pkts_parsed", decimal snap.pktsParsed.toNat),
   ("pkts_non_tcp", decimal snap.pktsNonTcp.toNat),
   ("pkts_parse_fail", decimal snap.pktsParseFail.toNat)]

/-- The members after the router id: those of the row the scope names, if there is one. -/
def tcpMembers (scope : CStr) (snap : CpeTcpSnapshot) (remote : Option CpeTcpRemote)
    (pfx : Option CpeTcpPrefix) : List (String × CStr) :=
  let scope := if scope ≠ [] then scope else ascii "summary"
  match if scope = ascii "remote" then remote else none with
  | some r => remoteMembers snap r
  | none =>
    match if scope = ascii "prefix" then pfx else none with
    | some x => prefixMembers snap x
    | none => summaryMembers snap

/-- `cpe_tcp_format_ndjson` -/
def cpeTcpFormatNdjson (routerId scope : CStr) (snap : CpeTcpSnapshot)
    (remote : Option CpeTcpRemote) (pfx : Option CpeTcpPrefix) (buflen : ℕ) : Option CStr :=
  if buflen < 64 then none
  else fitText buflen (object
    ([("type", quoted (ascii "cpe_tcp")),
      ("ts", quoted (if snap.tsIso ≠ [] then snap.tsIso else ascii "1970-01-01T00:00:00.000Z"))] ++
     ("router_id", quoted (if routerId ≠ [] then routerId else ascii "unknown")) ::
       tcpMembers scope snap remote pfx))

/-! ## The strings of a snapshot -/

/-- The strings of a snapshot can stand between quotes. -/
structure CpeTcpSnapshot.Legible (s : CpeTcpSnapshot) : Prop where
  tsIso : Safe s.tsIso
  remotes : ∀ r ∈ s.remotes, Safe r.remoteIp ∧ Safe r.localIp
  prefixes : ∀ x ∈ s.prefixes, Safe x.pfx

/-- The strings of a snapshot are words. -/
structure CpeTcpSnapshot.Worded (s : CpeTcpSnapshot) : Prop where
  tsIso : Word s.tsIso
  remotes : ∀ r ∈ s.remotes, Word r.remoteIp ∧ Word r.localIp
  prefixes : ∀ x ∈ s.prefixes, Word x.pfx

theorem CpeTcpSnapshot.Worded.legible {s : CpeTcpSnapshot} (h : s.Worded) : s.Legible :=
  ⟨h.tsIso.safe, fun r hr ↦ ⟨(h.remotes r hr).1.safe, (h.remotes r hr).2.safe⟩,
    fun x hx ↦ (h.prefixes x hx).safe⟩

theorem CpeTcpPacket.Addressed.word {p : CpeTcpPacket} (h : p.Addressed) :
    Word p.srcIp ∧ Word p.dstIp := by
  cases h with
  | v4 src dst _ hsrc hdst =>
    rw [hsrc, hdst]
    exact ⟨word_of_token (token_inetNtop4 src), word_of_token (token_inetNtop4 dst)⟩
  | v6 src dst _ hsrc hdst =>
    rw [hsrc, hdst]
    exact ⟨word_of_token (token_inetNtop6 src), word_of_token (token_inetNtop6 dst)⟩

theorem word_endpoints {p : CpeTcpPacket} (h : p.Addressed) :
    Word (endpoints p).remoteIp ∧ Word (endpoints p).localIp := by
  obtain ⟨hsrc, hdst⟩ := h.word
  have hout : Word (outbound p).remoteIp ∧ Word (outbound p).localIp :=
    ⟨hdst.copyStr 48, hsrc.copyStr 48⟩
  have hin : Word (inbound p).remoteIp ∧ Word (inbound p).localIp :=
    ⟨hsrc.copyStr 48, hdst.copyStr 48⟩
  rw [endpoints]
  split_ifs <;> first | exact hout | exact hin

theorem word_prefixFromIp4 (a : UInt32) (l : UInt8) : Word (prefixFromIp4 a l 64) := by
  obtain ⟨l', hl', heq⟩ := prefixFromIp4_default a l
  rw [heq, prefixFromIp4_eq a hl']
  exact (word_of_token (token_inetNtop4 _)).append
    (.cons (by decide) (word_of_token (token_decimal _)))

theorem CpeTcpSnapshot.Worded.applyPacket {st : CpeTcpState} (h : st.snap.Worded)
    {p : CpeTcpPacket} (hp : p.Addressed) (nowMs : UInt64) (clock : Option WallClock) :
    (applyPacket st p nowMs clock).snap.Worded := by
  obtain ⟨hremote, hlocal⟩ := word_endpoints hp
  obtain ⟨r, hr, hpre⟩ := touched_applyPacket st p nowMs clock
  refine ⟨(word_isoNow clock).copyStr 40, ?_, ?_⟩
  · refine hr.forall_mem h.remotes ?_ ⟨hremote.copyStr 48, hlocal.copyStr 48⟩
    exact fun r _ hword ↦ ⟨hword.1, hlocal.copyStr 48⟩
  · rcases hpre with ⟨-, heq⟩ | ⟨a, x, -, hx⟩
    · rw [heq]
      exact h.prefixes
    · exact hx.forall_mem h.prefixes (fun _ _ hword ↦ hword)
        ((word_prefixFromIp4 a st.plen).copyStr 64)

/-! ## What every step keeps -/

/-- A property of snapshots that packets and resets keep, and that looks at no number outside the
tables. -/
structure TcpStable (P : CpeTcpSnapshot → Prop) : Prop where
  numbers : ∀ {s t : CpeTcpSnapshot}, P s → t.tsIso = s.tsIso → t.remotes = s.remotes →
    t.prefixes = s.prefixes → P t
  stamp : ∀ {s : CpeTcpSnapshot} (clock : Option WallClock), P s →
    P { s with tsIso := copyStr 40 (isoNow clock) }
  packet : ∀ {st : CpeTcpState} {p : CpeTcpPacket}, p.Addressed →
    ∀ (nowMs : UInt64) (clock : Option WallClock), P st.snap → P (applyPacket st p nowMs clock).snap
  reset : ∀ (st : CpeTcpState) (clock : Option WallClock), P (cpeAgentTcpReset st clock).snap

theorem TcpStable.tcpStep {P : CpeTcpSnapshot → Prop} (hP : TcpStable P) {st : CpeTcpState}
    (h : P st.snap) (op : TcpOp) : P (st.tcpStep op).snap := by
  have hcount : P st.countParsed.snap := hP.numbers h rfl rfl rfl
  cases op with
  | feed pkt nowMs clock =>
    rw [CpeTcpState.tcpStep, cpeAgentTcpFeedPayload]
    split
    · exact h
    · split
      · rename_i p hp
        exact hP.packet (addressed_of_parse hp) nowMs clock hcount
      · exact hP.numbers h rfl rfl rfl
  | nflog payload nowMs clock =>
    rw [CpeTcpState.tcpStep, onNflogPayload]
    split
    · rename_i p hp
      exact hP.packet (addressed_of_parse hp) nowMs clock hcount
    · split <;> exact hP.numbers h rfl rfl rfl
  | reset clock => exact hP.reset st clock

theorem tcpStable_worded : TcpStable CpeTcpSnapshot.Worded where
  numbers := fun h hts hremotes hprefixes ↦
    ⟨hts ▸ h.tsIso, hremotes ▸ h.remotes, hprefixes ▸ h.prefixes⟩
  stamp := fun clock h ↦ ⟨(word_isoNow clock).copyStr 40, h.remotes, h.prefixes⟩
  packet := fun hp nowMs clock h ↦ h.applyPacket hp nowMs clock
  reset := fun _ clock ↦ ⟨(word_isoNow clock).copyStr 40, List.forall_mem_nil _,
    List.forall_mem_nil _⟩

/-- The tables and their texts have the sizes of their fields, and no two records of a table are
about the same. -/
structure CpeTcpSnapshot.Filed (s : CpeTcpSnapshot) : Prop where
  remotes_le : s.remotes.length ≤ cpeTcpRemoteMax
  prefixes_le : s.prefixes.length ≤ cpeTcpPrefixMax
  tsIso : s.tsIso.length < 40
  remotes : ∀ r ∈ s.remotes, r.remoteIp.length < 48 ∧ r.localIp.length < 48
  prefixes : ∀ x ∈ s.prefixes, x.pfx.length < 64
  remotes_nodup : (s.remotes.map CpeTcpRemote.remoteIp).Nodup
  prefixes_nodup : (s.prefixes.map CpeTcpPrefix.pfx).Nodup

theorem CpeTcpSnapshot.Filed.applyPacket {st : CpeTcpState} (h : st.snap.Filed) (p : CpeTcpPacket)
    (nowMs : UInt64) (clock : Option WallClock) : (applyPacket st p nowMs clock).snap.Filed := by
  obtain ⟨r, hr, hpre⟩ := touched_applyPacket st p nowMs clock
  have hlocal : (copyStr 48 (endpoints p).localIp).length < 48 := length_copyStr_lt (by decide) _
  have hprefixes : (NetForensics.applyPacket st p nowMs clock).snap.prefixes.length
        ≤ cpeTcpPrefixMax ∧
      (∀ x ∈ (NetForensics.applyPacket st p nowMs clock).snap.prefixes, x.pfx.length < 64) ∧
      ((NetForensics.applyPacket st p nowMs clock).snap.prefixes.map CpeTcpPrefix.pfx).Nodup := by
    rcases hpre with ⟨-, heq⟩ | ⟨a, x, -, hx⟩
    · rw [heq]
      exact ⟨h.prefixes_le, h.prefixes, h.prefixes_nodup⟩
    · exact ⟨hx.length_le h.prefixes_le,
        hx.forall_mem h.prefixes (fun _ _ hlen ↦ hlen) (length_copyStr_lt (by decide) _),
        hx.nodup (freshPrefix_pfx a _) (fun _ ↦ rfl) h.prefixes_nodup⟩
  refine ⟨hr.length_le h.remotes_le, hprefixes.1, length_copyStr_lt (by decide) _, ?_,
    hprefixes.2.1, ?_, hprefixes.2.2⟩
  · exact hr.forall_mem h.remotes (fun _ _ hlen ↦ ⟨hlen.1, hlocal⟩)
      ⟨length_copyStr_lt (by decide) _, hlocal⟩
  · exact hr.nodup (freshRemote_remoteIp p) (fun _ ↦ rfl) h.remotes_nodup

theorem tcpStable_filed : TcpStable CpeTcpSnapshot.Filed where
  numbers := fun h hts hremotes hprefixes ↦
    ⟨hremotes ▸ h.remotes_le, hprefixes ▸ h.prefixes_le, hts ▸ h.tsIso, hremotes ▸ h.remotes,
      hprefixes ▸ h.prefixes, hremotes ▸ h.remotes_nodup, hprefixes ▸ h.prefixes_nodup⟩
  stamp := fun _ h ↦ { h with tsIso := length_copyStr_lt (by decide) _ }
  packet := fun _ nowMs clock h ↦ h.applyPacket _ nowMs clock
  reset := fun _ _ ↦ ⟨Nat.zero_le _, Nat.zero_le _, length_copyStr_lt (by decide) _,
    List.forall_mem_nil _, List.forall_mem_nil _, List.nodup_nil, List.nodup_nil⟩

/-! ## The members of a line -/

theorem sound_counters (c : TcpCounters) : ∀ m ∈ c.members, Sound m := by
  simp only [TcpCounters.members, List.forall_mem_cons]
  exact ⟨sound_decimal (by decide) _, sound_decimal (by decide) _, sound_decimal (by decide) _,
    sound_decimal (by decide) _, sound_decimal (by decide) _, sound_decimal (by decide) _,
    List.forall_mem_nil _⟩

theorem sound_remoteMembers (snap : CpeTcpSnapshot) {r : CpeTcpRemote}
    (hr : Safe r.remoteIp ∧ Safe r.localIp) : ∀ m ∈ remoteMembers snap r, Sound m := by
  simp only [remoteMembers, List.forall_mem_append, List.forall_mem_cons]
  exact ⟨⟨⟨sound_safe (by decide) (by decide), sound_safe (by decide) hr.1,
    sound_safe (by decide) hr.2, sound_decimal (by decide) _, sound_decimal (by decide) _,
    List.forall_mem_nil _⟩, sound_counters _⟩, sound_fixed (by decide) 4 _,
    sound_decimal (by decide) _, List.forall_mem_nil _⟩

theorem sound_prefixMembers (snap : CpeTcpSnapshot) {x : CpeTcpPrefix} (hx : Safe x.pfx) :
    ∀ m ∈ prefixMembers snap x, Sound m := by
  simp only [prefixMembers, List.forall_mem_append, List.forall_mem_cons]
  exact ⟨⟨⟨sound_safe (by decide) (by decide), sound_safe (by decide) hx, List.forall_mem_nil _⟩,
    sound_counters _⟩, sound_decimal (by decide) _, sound_fixed (by decide) 4 _,
    sound_decimal (by decide) _, List.forall_mem_nil _⟩

theorem sound_summaryMembers (snap : CpeTcpSnapshot) : ∀ m ∈ summaryMembers snap, Sound m := by
  simp only [summaryMembers, List.forall_mem_append, List.forall_mem_cons]
  exact ⟨⟨sound_safe (by decide) (by decide), sound_counters _⟩, sound_decimal (by decide) _,
    sound_decimal (by decide) _, sound_fixed (by decide) 4 _, sound_decimal (by decide) _,
    sound_decimal (by decide) _, sound_decimal (by decide) _, sound_decimal (by decide) _,
    sound_decimal (by decide) _, List.forall_mem_nil _⟩

/-- Of a row of the snapshot, everything but the router id is sound, and comes after `scope`. -/
theorem tcpMembers_spec {snap : CpeTcpSnapshot} (h : snap.Legible) (scope : CStr)
    {remote : Option CpeTcpRemote} (hremote : ∀ r ∈ remote, r ∈ snap.remotes)
    {pfx : Option CpeTcpPrefix} (hpfx : ∀ x ∈ pfx, x ∈ snap.prefixes) :
    (∃ v rest, tcpMembers scope snap remote pfx = ("scope", v) :: rest) ∧
      (∀ m ∈ tcpMembers scope snap remote pfx, Sound m) ∧
      ∀ m ∈ tcpMembers scope snap remote pfx, ascii m.1 ≠ ascii "router_id" := by
  rw [tcpMembers]
  split
  · rename_i r hr
    have hmem : r ∈ snap.remotes := hremote r (Option.ite_none_right_eq_some.mp hr).2
    refine ⟨⟨_, _, rfl⟩, sound_remoteMembers snap (h.remotes r hmem), ?_⟩
    simp only [remoteMembers, TcpCounters.members, List.forall_mem_append, List.forall_mem_cons]
    decide
  · split
    · rename_i x hx
      have hmem : x ∈ snap.prefixes := hpfx x (Option.ite_none_right_eq_some.mp hx).2
      refine ⟨⟨_, _, rfl⟩, sound_prefixMembers snap (h.prefixes x hmem), ?_⟩
      simp only [prefixMembers, TcpCounters.members, List.forall_mem_append, List.forall_mem_cons]
      decide
    · refine ⟨⟨_, _, rfl⟩, sound_summaryMembers snap, ?_⟩
      simp only [summaryMembers, TcpCounters.members, List.forall_mem_append, List.forall_mem_cons]
      decide

end NetForensics
