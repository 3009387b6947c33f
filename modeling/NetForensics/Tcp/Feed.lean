import NetForensics.Nflog.Deliver
import NetForensics.Tcp.Grammar
import NetForensics.Tcp.Stats

/-!
# The two ways into the TCP statistics

A payload can be fed as it is, or in a message of the NFLOG socket. Both ways count the payload,
parse it and account for the packet. They differ for what is no TCP packet: the one from the socket
looks at the protocol number before it calls it a failure.
-/

namespace NetForensics

/-- `cpe_agent_tcp_feed_nflog`, with its return value; `clocks` are the monotonic clock and the wall
clock at each callback. -/
def cpeAgentTcpFeedNflog (st : CpeTcpState) (nlMsg : List UInt8)
    (clocks : ℕ → UInt64 × Option WallClock) (fuel : ℕ) : Option (CpeTcpState × ℤ) :=
  if nlMsg = [] then some (st, -1)
  else
    match nflogNetlinkWalk nlMsg fuel with
    | .returned ret pkts =>
      some (pkts.zipIdx.foldl (fun st p ↦
        onNflogPayload st p.1.payload (clocks p.2).1 (clocks p.2).2) st, ret)
    | .outside | .running => none

/-! ## Without the clocks -/

def CpeTcpRemote.forget (r : CpeTcpRemote) : CpeTcpRemote := { r with lastSeenMs := 0 }

def CpeTcpState.forget (st : CpeTcpState) : CpeTcpState :=
  { st with snap := { st.snap with
      tsIso := []
      remotes := st.snap.remotes.map CpeTcpRemote.forget } }

theorem map_modify_congr {f g : α → α} {π : α → β} (h : ∀ a, π (f a) = π (g a)) (l : List α)
    (i : ℕ) : (l.modify i f).map π = (l.modify i g).map π := by
  refine List.ext_getElem? fun j ↦ ?_
  rw [List.getElem?_map, List.getElem?_map, List.getElem?_modify, List.getElem?_modify]
  cases l[j]? with
  | none => rfl
  | some a =>
    simp only [Option.map_eq_map, Option.map_some, apply_ite π, h]

theorem forget_applyPacket (st : CpeTcpState) (p : CpeTcpPacket) (nowMs nowMs' : UInt64)
    (clock clock' : Option WallClock) :
    (applyPacket st p nowMs clock).forget = (applyPacket st p nowMs' clock').forget := by
  have hremotes : ∀ (l : List CpeTcpRemote) (i : ℕ) (b : Bool),
      (l.modify i (bumpRemote p b nowMs)).map CpeTcpRemote.forget
        = (l.modify i (bumpRemote p b nowMs')).map CpeTcpRemote.forget :=
    fun l i b ↦ map_modify_congr (f := bumpRemote p b nowMs) (g := bumpRemote p b nowMs')
      (π := CpeTcpRemote.forget) (fun _ ↦ rfl) l i
  have htouch : ∀ (l : List CpeTcpRemote) (i : ℕ) (b : Bool),
      ((l.modify i (bumpRemote p b nowMs))[i]?.any fun r ↦ r.pktCount == 1)
        = ((l.modify i (bumpRemote p b nowMs'))[i]?.any fun r ↦ r.pktCount == 1) := by
    intro l i b
    rw [List.getElem?_modify_eq, List.getElem?_modify_eq]
    cases l[i]? <;> rfl
  rw [applyPacket, applyPacket, CpeTcpState.forget, CpeTcpState.forget]
  simp only [hremotes, htouch]

/-! ## A payload that is not parsed -/

/-- The packet says that it carries another protocol. -/
def NamesOther (pkt : List UInt8) : Prop :=
  (ipVersion pkt = 4 ∧ 10 ≤ pkt.length ∧ byteAt pkt 9 ≠ ipprotoTcp) ∨
    (ipVersion pkt = 6 ∧ 7 ≤ pkt.length ∧ byteAt pkt 6 ≠ ipprotoTcp)

theorem looksNonTcp_iff (pkt : List UInt8) : looksNonTcp pkt = true ↔ NamesOther pkt := by
  rw [looksNonTcp, NamesOther, ipVersion]
  simp only [Bool.and_eq_true, Bool.or_eq_true, decide_eq_true_eq, beq_iff_eq, bne_iff_ne]
  constructor
  · rintro ⟨-, ⟨⟨h, hlen⟩, hne⟩ | ⟨⟨h, hlen⟩, hne⟩⟩
    · exact Or.inl ⟨h, hlen, hne⟩
    · exact Or.inr ⟨h, hlen, hne⟩
  · rintro (⟨h, hlen, hne⟩ | ⟨h, hlen, hne⟩)
    · exact ⟨by omega, Or.inl ⟨⟨h, hlen⟩, hne⟩⟩
    · exact ⟨by omega, Or.inr ⟨⟨h, hlen⟩, hne⟩⟩

theorem add_one_ne (x : UInt64) : x + 1 ≠ x := by
  intro h
  simp at h

theorem pktsParsed_feedPayload (st : CpeTcpState) {pkt : List UInt8} (hne : pkt ≠ [])
    (nowMs : UInt64) (clock : Option WallClock) :
    (cpeAgentTcpFeedPayload st pkt nowMs clock).1.snap.pktsParsed = st.snap.pktsParsed + 1 := by
  rw [cpeAgentTcpFeedPayload, if_neg hne]
  cases cpeTcpParseIpPacket pkt <;> rfl

/-- Both ways do the same for a payload, unless it is no TCP packet and says so. -/
theorem forget_onNflogPayload_iff (st : CpeTcpState) {pkt : List UInt8} (hne : pkt ≠ [])
    (nowMs nowMs' : UInt64) (clock clock' : Option WallClock) :
    (onNflogPayload st pkt nowMs clock).forget
        = (cpeAgentTcpFeedPayload st pkt nowMs' clock').1.forget ↔
      CarriesTcp pkt ∨ ¬ NamesOther pkt := by
  rw [← isSome_parse_iff, ← looksNonTcp_iff, onNflogPayload, cpeAgentTcpFeedPayload, if_neg hne]
  cases cpeTcpParseIpPacket pkt with
  | some p => exact iff_of_true (forget_applyPacket _ _ _ _ _ _) (Or.inl rfl)
  | none =>
    dsimp only
    by_cases hother : looksNonTcp pkt = true
    · rw [if_pos hother]
      refine iff_of_false ?_ (fun h ↦ h.elim (fun h ↦ nomatch h) fun h ↦ h hother)
      intro h
      exact add_one_ne _ (congrArg (fun st ↦ st.snap.pktsNonTcp) h)
    · rw [if_neg hother]
      exact iff_of_true rfl (Or.inr hother)

/-! ## The message -/

/-- The message is a packet whose only payload attribute is the given one. -/
def NlMessage.Carries (m : NlMessage) (pkt : List UInt8) : Prop :=
  ∃ genmsg attrs a, m.content = .packet genmsg attrs ∧
    (attrs.filter fun a ↦ a.kind = nfulaPayload) = [a] ∧ a.data = pkt

theorem handed_of_carries {m : NlMessage} {pkt : List UInt8} (h : m.Carries pkt) (hne : pkt ≠ []) :
    (m.len < 2 ^ 31 + 20 → ∃ p, m.handed = some p ∧ p.payload = pkt) ∧
      (¬ m.len < 2 ^ 31 + 20 → m.handed = none) := by
  obtain ⟨genmsg, attrs, a, hcontent, hfilter, rfl⟩ := h
  obtain ⟨-, -, hlen, -⟩ := NlMessage.bytes_packet hcontent [] []
  have hpos : 1 ≤ a.data.length := List.length_pos_of_ne_nil hne
  have hlast : lastData attrs nfulaPayload 1 = some a.data := by
    have hboth : (attrs.filter fun b ↦ b.kind = nfulaPayload ∧ 1 ≤ b.data.length)
        = (attrs.filter fun b ↦ b.kind = nfulaPayload).filter fun b ↦ 1 ≤ b.data.length := by
      rw [List.filter_filter]
      simp only [Bool.decide_and, Bool.and_comm]
    rw [lastData, hboth, hfilter, List.filter_cons, if_pos (decide_eq_true hpos)]
    rfl
  rw [NlMessage.handed_packet hcontent, packet_seen, delivery, hlast]
  constructor
  · intro hsmall
    rw [if_pos (by omega)]
    exact ⟨_, rfl, rfl⟩
  · intro hbig
    rw [if_neg (by omega)]

theorem bufferOf_singleton (m : NlMessage) : bufferOf [m] = m.bytes := List.flatMap_singleton _ _

theorem NlMessage.bytes_ne_nil (m : NlMessage) : m.bytes ≠ [] := by
  refine List.ne_nil_of_length_pos ?_
  have hheader : 16 ≤ m.len := Nat.le_add_right 16 _
  rw [length_bytes]
  omega

/-- A message as an input: its payload is accounted for, if it is handed on. -/
theorem feedNflog_eq_some_iff (st : CpeTcpState) (m : NlMessage)
    (clocks : ℕ → UInt64 × Option WallClock) {fuel : ℕ} (hfuel : 1 < fuel)
    (res : CpeTcpState × ℤ) :
    cpeAgentTcpFeedNflog st m.bytes clocks fuel = some res ↔ m.Rounds ∧ res =
      (match m.handed with
        | none => st
        | some p => onNflogPayload st p.payload (clocks 0).1 (clocks 0).2,
      ((if m.counted then 1 else 0 : ℕ) : ℤ)) := by
  rw [cpeAgentTcpFeedNflog, if_neg m.bytes_ne_nil, ← bufferOf_singleton]
  by_cases hround : m.Rounds
  · rw [nflogNetlinkWalk_bufferOf (List.cons_ne_nil _ _) (List.forall_mem_singleton.mpr hround)
      hfuel, and_iff_right hround, List.countP_singleton, List.filterMap_cons]
    cases m.handed <;> exact Option.some_inj.trans eq_comm
  · refine iff_of_false ?_ fun h ↦ hround h.1
    cases hwalk : nflogNetlinkWalk (bufferOf [m]) fuel with
    | returned ret pkts =>
      exact absurd (rounds_of_returned (List.cons_ne_nil _ _) hwalk m (List.mem_singleton.mpr rfl))
        hround
    | outside => exact nofun
    | running => exact nofun

/-- Feeding the payload and feeding the message leave the same state, up to the clock readings. -/
def FeedsAgree (st : CpeTcpState) (m : NlMessage) (pkt : List UInt8) : Prop :=
  ∀ (nowMs : UInt64) (clock : Option WallClock) (clocks : ℕ → UInt64 × Option WallClock) (fuel : ℕ),
    1 < fuel → ∃ res, cpeAgentTcpFeedNflog st m.bytes clocks fuel = some res ∧
      res.1.forget = (cpeAgentTcpFeedPayload st pkt nowMs clock).1.forget

theorem rounds_of_len {m : NlMessage} (h : m.len < 2 ^ 31 + 20) : m.Rounds := by
  have hpad := m.pad_length
  rw [NlMessage.len] at h
  rw [NlMessage.Rounds, NlMessage.length_bytes, NlMessage.len]
  omega

/-- The payload and the message that carries it leave the same state, up to the clock readings, if
and only if the message has less than 2^31 bytes of attributes and the payload is a TCP packet or
does not name another protocol. -/
theorem feedsAgree_iff (st : CpeTcpState) {m : NlMessage} {pkt : List UInt8} (hne : pkt ≠ [])
    (h : m.Carries pkt) :
    FeedsAgree st m pkt ↔ m.len < 2 ^ 31 + 20 ∧ (CarriesTcp pkt ∨ ¬ NamesOther pkt) := by
  obtain ⟨hsmall, hbig⟩ := handed_of_carries h hne
  constructor
  · intro hagree
    obtain ⟨res, hres, hforget⟩ := hagree 0 none (fun _ ↦ (0, none)) 2 Nat.one_lt_two
    obtain ⟨-, rfl⟩ := (feedNflog_eq_some_iff st m _ Nat.one_lt_two res).mp hres
    by_cases hlen : m.len < 2 ^ 31 + 20
    · obtain ⟨p, hp, rfl⟩ := hsmall hlen
      rw [hp] at hforget
      exact ⟨hlen, (forget_onNflogPayload_iff st hne _ _ _ _).mp hforget⟩
    · rw [hbig hlen] at hforget
      have hcount := congrArg (fun st ↦ st.snap.pktsParsed) hforget
      exact absurd ((pktsParsed_feedPayload st hne 0 none).symm.trans hcount.symm) (add_one_ne _)
  · rintro ⟨hlen, hpkt⟩ nowMs clock clocks fuel hfuel
    obtain ⟨p, hp, rfl⟩ := hsmall hlen
    refine ⟨_, (feedNflog_eq_some_iff st m clocks hfuel _).mpr ⟨rounds_of_len hlen, rfl⟩, ?_⟩
    rw [hp]
    exact (forget_onNflogPayload_iff st hne _ _ _ _).mpr hpkt

def payloadAttr (pkt : List UInt8) (hlen : pkt.length < 2 ^ 15) : NlAttr where
  type := 9
  data := pkt
  pad := []
  len_lt := by omega
  pad_le := le_nflogNlaAlign _

theorem length_payloadAttr (pkt : List UInt8) (hlen : pkt.length < 2 ^ 15) :
    (attrBytes [payloadAttr pkt hlen]).length = 4 + pkt.length := by
  rw [attrBytes, List.flatMap_singleton, NlAttr.length_bytes]
  rfl

def payloadMessage (pkt : List UInt8) (hlen : pkt.length < 2 ^ 15) (hwords : pkt.length % 4 = 0) :
    NlMessage :=
  packetMessage [payloadAttr pkt hlen] trivial
    (by rw [length_payloadAttr, Nat.add_mod_left, hwords])
    (by rw [length_payloadAttr]; omega)

theorem carries_payloadMessage {pkt : List UInt8} (hlen : pkt.length < 2 ^ 15)
    (hwords : pkt.length % 4 = 0) : (payloadMessage pkt hlen hwords).Carries pkt :=
  ⟨_, _, payloadAttr pkt hlen, rfl, rfl, rfl⟩

def tcpPacket : List UInt8 :=
  [0x45, 0, 0, 36, 0, 0, 0, 0, 64, 6, 0, 0, 10, 0, 0, 1, 10, 0, 0, 2,
    0, 80, 0, 80, 0, 0, 0, 0, 0, 0, 0, 0, 0x50, 2, 0, 0]

theorem feedsAgree_tcp :
    FeedsAgree cpeTcpStateInit (payloadMessage tcpPacket (by decide) (by decide)) tcpPacket :=
  (feedsAgree_iff cpeTcpStateInit (List.cons_ne_nil _ _) (carries_payloadMessage _ _)).mpr
    ⟨by decide, Or.inl (Or.inl ⟨20, by decide, by decide, by decide, by decide, by decide⟩)⟩

def udpPacket : List UInt8 :=
  [0x45, 0, 0, 20, 0, 0, 0, 0, 64, 17, 0, 0, 10, 0, 0, 1, 10, 0, 0, 2]

/-- One way counts it as no TCP packet, the other as a failure. -/
theorem feeds_disagree_udp : ¬ ∀ (st : CpeTcpState) (m : NlMessage) (pkt : List UInt8), pkt ≠ [] →
    m.Carries pkt → FeedsAgree st m pkt := by
  intro h
  have hcarries : (payloadMessage udpPacket (by decide) (by decide)).Carries udpPacket :=
    carries_payloadMessage _ _
  have hne : udpPacket ≠ [] := List.cons_ne_nil _ _
  obtain ⟨res, hres, hforget⟩ :=
    h cpeTcpStateInit _ udpPacket hne hcarries 0 none (fun _ ↦ (0, none)) 2 Nat.one_lt_two
  obtain ⟨-, rfl⟩ := (feedNflog_eq_some_iff _ _ _ Nat.one_lt_two res).mp hres
  obtain ⟨p, hp, hpayload⟩ := (handed_of_carries hcarries hne).1 (by decide)
  rw [hp] at hforget
  dsimp only at hforget
  rw [hpayload, forget_onNflogPayload_iff _ hne, ← isSome_parse_iff, ← looksNonTcp_iff] at hforget
  exact absurd hforget (by decide)

end NetForensics
