import NetForensics.Perf.Sample
import NetForensics.Util.Reads

/-!
# Matching ICMP replies

The live ping and the ICMP probe of a trace send one echo request and look at the first datagram
that arrives before the timeout. On a raw socket that can be any ICMP traffic of the host. The ping
compares type and sequence number of what it got and not the identifier; the probe only the type.

What should be matched is stated on the datagrams as they arrive (`RepliesTo`, `QuotesProbe`); the
code reads the first 256 or 512 bytes of one of them.
-/

namespace NetForensics

/-- `icmp_payload`, the same in both files. The length of the header is in the first byte. -/
def icmpPayload (buf : List UInt8) (isRaw : Bool) : Option (List UInt8) :=
  if buf.length < 8 then none
  else if !isRaw then some buf
  else if buf.length < 20 then none
  else
    let ihl := ((readByte buf 0).getD 0 &&& 0x0f).toNat * 4
    if ihl < 20 ∨ buf.length < ihl + 8 then none else some (buf.drop ihl)

/-- A datagram as `recvfrom` delivers it, and the clock when it does. -/
structure Datagram where
  source : UInt32
  bytes : List UInt8
  recvNs : UInt64

/-- What happens on the socket of one echo request. -/
structure IcmpExchange where
  /-- do `socket` and `sendto` succeed? -/
  sent : Bool
  isRaw : Bool
  /-- the clock when the request was sent -/
  t0Ns : UInt64
  /-- what arrives before the timeout, in order -/
  datagrams : List Datagram

def IcmpExchange.rttMs (ex : IcmpExchange) (d : Datagram) : ℚ :=
  if ex.t0Ns ≤ d.recvNs then (d.recvNs - ex.t0Ns).toNat / 1000000 else 0

/-! ## Ping -/

/-- The part of `cpe_agent_live_ping_tick` that waits for the reply; `seq` is the sequence number of
the request. The result is the time to the reply. -/
def livePingReply (ex : IcmpExchange) (seq : UInt16) : Option ℚ :=
  match ex.datagrams with
  | [] => none
  | d :: _ =>
    match icmpPayload (d.bytes.take 256) ex.isRaw with
    | none => none
    | some icmp =>
      if readByte icmp 0 = some 0 ∧ readBe icmp 6 2 = some seq.toNat then some (ex.rttMs d)
      else none

/-- `cpe_agent_live_ping_tick` up to the formatter. -/
def cpeAgentLivePingTick (cfg : CpeAgentConfig) (clock : Option WallClock) (ex : IcmpExchange)
    (seq : UInt16) : Option CpePerfSample :=
  if (inetPton4 cfg.demoTarget).isNone || !ex.sent then none
  else some (livePingSample cfg clock (livePingReply ex seq) ex.isRaw)

/-! ## The probe of a trace -/

/-- The outcome of `probe_udp_once` and `probe_icmp_once`: −1, 0, 1 and 2, the last two with an
address, if the answer had one, and a time. -/
inductive ProbeOutcome where
  | error
  | timeout
  | hop (addr : Option UInt32) (rttMs : ℚ)
  | dest (addr : Option UInt32) (rttMs : ℚ)
  deriving DecidableEq

/-- `probe_icmp_once` -/
def probeIcmpOnce (ex : IcmpExchange) : ProbeOutcome :=
  if !ex.sent then .error
  else
    match ex.datagrams with
    | [] => .timeout
    | d :: _ =>
      if d.bytes = [] then .timeout
      else
        match icmpPayload (d.bytes.take 512) ex.isRaw with
        | none => .hop (some d.source) (ex.rttMs d)
        | some icm =>
          if readByte icm 0 = some 0 then .dest (some d.source) (ex.rttMs d)
          else if readByte icm 0 = some 11 then .hop (some d.source) (ex.rttMs d)
          -- destination unreachable
          else if readByte icm 0 = some 3 then .dest (some d.source) (ex.rttMs d)
          else .hop (some d.source) (ex.rttMs d)

/-! ## What a datagram is -/

namespace Datagram

/-- The ICMP message behind the IP header of a raw datagram has this property. -/
def Carries (d : Datagram) (P : List UInt8 → Prop) : Prop :=
  ∃ msg, icmpPayload d.bytes true = some msg ∧ P msg

def OfType (type : UInt8) (msg : List UInt8) : Prop := readByte msg 0 = some type

/-- A message of this type with this sequence number. -/
def OfSeq (type : UInt8) (seq : UInt16) (msg : List UInt8) : Prop :=
  OfType type msg ∧ readBe msg 6 2 = some seq.toNat

/-- A message of this type with this identifier and sequence number. -/
def OfEcho (type : UInt8) (id seq : UInt16) (msg : List UInt8) : Prop :=
  OfSeq type seq msg ∧ readBe msg 4 2 = some id.toNat

/-- An echo reply with the identifier and the sequence number of the request. -/
def RepliesTo (d : Datagram) (id seq : UInt16) : Prop := d.Carries (OfEcho 0 id seq)

/-- An unreachable message that quotes the request: an IP header and the start of an echo request
with the identifier and the sequence number. -/
def QuotesProbe (d : Datagram) (id seq : UInt16) : Prop :=
  d.Carries fun msg ↦ OfType 3 msg ∧
    ∃ quoted, icmpPayload (msg.drop 8) true = some quoted ∧ OfEcho 8 id seq quoted

end Datagram

/-! ## Cut datagrams -/

section Cut

variable {buf : List UInt8} {n i : ℕ}

theorem ihl_le (b : UInt8) : (b &&& 0x0f).toNat * 4 ≤ 60 := by
  have hand : (b &&& 0x0f).toNat ≤ 15 := by
    rw [UInt8.toNat_and]
    exact Nat.and_le_right
  omega

/-- The header and the first eight bytes of a message end within 68 bytes. -/
theorem icmpPayload_take (buf : List UInt8) (hn : 68 ≤ n) :
    (icmpPayload (buf.take n) true).map (List.take 8)
      = (icmpPayload buf true).map (List.take 8) := by
  have hbyte : readByte (buf.take n) 0 = readByte buf 0 := by
    rw [readByte, readByte, List.getElem?_take, if_pos (by omega)]
  have hihl := ihl_le ((readByte buf 0).getD 0)
  have hdrop : ∀ k, k + 8 ≤ n → ((buf.take n).drop k).take 8 = (buf.drop k).take 8 := by
    intro k hk
    rw [List.drop_take, List.take_take, Nat.min_eq_left (by omega)]
  rw [icmpPayload, icmpPayload, hbyte, List.length_take]
  generalize ((readByte buf 0).getD 0 &&& 0x0f).toNat * 4 = k at hihl
  -- what is too short for an IP header is not cut
  by_cases hlen : buf.length < 20
  · have hcut : min n buf.length = buf.length := Nat.min_eq_right (by omega)
    have hwhole : buf.take n = buf := List.take_of_length_le (by omega)
    rw [hcut, hwhole]
  · have h8 : ¬ min n buf.length < 8 := by omega
    have h20 : ¬ min n buf.length < 20 := by omega
    have hk : min n buf.length < k + 8 ↔ buf.length < k + 8 := by omega
    simp only [h8, h20, hk, hlen, if_false, show ¬ buf.length < 8 by omega, Bool.not_true,
      Bool.false_eq_true]
    split
    · rfl
    · rw [Option.map_some, Option.map_some, hdrop k (by omega)]

/-- A property of the first eight bytes of a message is not affected by the cut. -/
theorem carries_take_iff {P : List UInt8 → Prop} (hP : ∀ msg, P (msg.take 8) ↔ P msg)
    (hn : 68 ≤ n) : (∃ msg, icmpPayload (buf.take n) true = some msg ∧ P msg) ↔
      ∃ msg, icmpPayload buf true = some msg ∧ P msg := by
  have hcut := icmpPayload_take buf hn
  cases hwhole : icmpPayload buf true with
  | none =>
    rw [hwhole, Option.map_none, Option.map_eq_none_iff] at hcut
    rw [hcut]
  | some msg =>
    rw [hwhole, Option.map_some, Option.map_eq_some_iff] at hcut
    obtain ⟨short, hshort, heq⟩ := hcut
    rw [hshort]
    simp only [Option.some.injEq, exists_eq_left', ← hP short, ← hP msg, heq]

theorem readByte_take (h : i < 8) (msg : List UInt8) :
    readByte (msg.take 8) i = readByte msg i := by
  rw [readByte, readByte, List.getElem?_take, if_pos h]

theorem readBe_take (h : i + 2 ≤ 8) (msg : List UInt8) :
    readBe (msg.take 8) i 2 = readBe msg i 2 := by
  have hle : i + 2 ≤ min 8 msg.length ↔ i + 2 ≤ msg.length := by omega
  have hslice : ((msg.take 8).drop i).take 2 = (msg.drop i).take 2 := by
    rw [List.drop_take, List.take_take, Nat.min_eq_left (by omega)]
  rw [readBe, readBe, readSlice, readSlice, List.length_take, hslice]
  simp only [hle]

theorem ofType_take (type : UInt8) (msg : List UInt8) :
    Datagram.OfType type (msg.take 8) ↔ Datagram.OfType type msg := by
  rw [Datagram.OfType, Datagram.OfType, readByte_take (by decide)]

theorem ofSeq_take (type : UInt8) (seq : UInt16) (msg : List UInt8) :
    Datagram.OfSeq type seq (msg.take 8) ↔ Datagram.OfSeq type seq msg := by
  rw [Datagram.OfSeq, Datagram.OfSeq, ofType_take, readBe_take (by decide)]

end Cut

/-! ## What the code matches -/

variable {ex : IcmpExchange} {id seq : UInt16}

/-- The ping sees a reply when the first datagram is an echo reply with its sequence number. -/
theorem livePingReply_isSome_iff (hraw : ex.isRaw = true) : (livePingReply ex seq).isSome = true ↔
    ∃ d ∈ ex.datagrams.head?, d.Carries (Datagram.OfSeq 0 seq) := by
  rw [livePingReply]
  cases ex.datagrams with
  | nil => simp
  | cons d ds =>
    have hcut : (∃ msg, icmpPayload (d.bytes.take 256) true = some msg ∧
        Datagram.OfSeq 0 seq msg) ↔ d.Carries (Datagram.OfSeq 0 seq) :=
      carries_take_iff (ofSeq_take 0 seq) (by decide)
    simp only [List.head?_cons, Option.mem_def, Option.some.injEq, exists_eq_left']
    rw [← hcut, hraw]
    cases icmpPayload (d.bytes.take 256) true with
    | none => simp
    | some icmp =>
      dsimp only
      rw [apply_ite Option.isSome]
      simp [Datagram.OfSeq, Datagram.OfType]

/-- The probe sees the destination when the first datagram is any echo reply or any unreachable
message. -/
theorem probeIcmpOnce_dest_iff (hraw : ex.isRaw = true) (hsent : ex.sent = true) :
    (∃ addr rtt, probeIcmpOnce ex = .dest addr rtt) ↔ ∃ d ∈ ex.datagrams.head?,
      d.Carries (Datagram.OfType 0) ∨ d.Carries (Datagram.OfType 3) := by
  rw [probeIcmpOnce, hsent, Bool.not_true, if_neg Bool.false_ne_true]
  cases ex.datagrams with
  | nil => simp
  | cons d ds =>
    have hcut : ∀ type, (∃ msg, icmpPayload (d.bytes.take 512) true = some msg ∧
        Datagram.OfType type msg) ↔ d.Carries (Datagram.OfType type) :=
      fun type ↦ carries_take_iff (ofType_take type) (by decide)
    simp only [List.head?_cons, Option.mem_def, Option.some.injEq, exists_eq_left']
    rw [← hcut, ← hcut, hraw]
    by_cases hempty : d.bytes = []
    · have hnone : icmpPayload (d.bytes.take 512) true = none := by rw [hempty]; rfl
      rw [if_pos hempty, hnone]
      simp
    · rw [if_neg hempty]
      cases icmpPayload (d.bytes.take 512) true with
      | none => simp
      | some icm =>
        dsimp only
        simp only [Option.some.injEq, exists_eq_left', Datagram.OfType]
        split_ifs <;> simp_all

/-- The ping reports a reply if and only if the reply to its request is among what arrives. -/
def PingMatches (cfg : CpeAgentConfig) (clock : Option WallClock) (ex : IcmpExchange)
    (id seq : UInt16) : Prop :=
  ∃ sample, cpeAgentLivePingTick cfg clock ex seq = some sample ∧
    (sample.loss = 0 ↔ ∃ d ∈ ex.datagrams, d.RepliesTo id seq)

/-- The probe reports the destination only for the reply to its request or an unreachable message
that quotes it. -/
def ProbeMatches (ex : IcmpExchange) (id seq : UInt16) : Prop :=
  ∀ addr rtt, probeIcmpOnce ex = .dest addr rtt →
    ∃ d ∈ ex.datagrams.head?, d.RepliesTo id seq ∨ d.QuotesProbe id seq

/-- The first datagram is an echo reply with the sequence number of the request and the reply
arrives, first or later; or it is none and no reply arrives. -/
def FirstDecides (ex : IcmpExchange) (id seq : UInt16) : Prop :=
  (∃ d ∈ ex.datagrams.head?, d.Carries (Datagram.OfSeq 0 seq)) ∧
      (∃ d ∈ ex.datagrams, d.RepliesTo id seq) ∨
    (∀ d ∈ ex.datagrams.head?, ¬ d.Carries (Datagram.OfSeq 0 seq)) ∧
      ∀ d ∈ ex.datagrams, ¬ d.RepliesTo id seq

/-- The first datagram is neither an echo reply to something else nor an unreachable message about
something else. -/
def FirstOwn (ex : IcmpExchange) (id seq : UInt16) : Prop :=
  ∀ d ∈ ex.datagrams.head?, (d.Carries (Datagram.OfType 0) → d.RepliesTo id seq) ∧
    (d.Carries (Datagram.OfType 3) → d.QuotesProbe id seq)

theorem pingMatches_iff {cfg : CpeAgentConfig} (clock : Option WallClock) (hraw : ex.isRaw = true)
    (hsent : ex.sent = true) (htarget : (inetPton4 cfg.demoTarget).isSome = true) :
    PingMatches cfg clock ex id seq ↔ FirstDecides ex id seq := by
  have hnone : ¬ ((inetPton4 cfg.demoTarget).isNone || !ex.sent) = true := by
    obtain ⟨ip, hip⟩ := Option.isSome_iff_exists.mp htarget
    simp [hsent, hip]
  have hloss : (livePingSample cfg clock (livePingReply ex seq) ex.isRaw).loss = 0 ↔
      ∃ d ∈ ex.datagrams.head?, d.Carries (Datagram.OfSeq 0 seq) := by
    rw [← livePingReply_isSome_iff hraw, livePingSample]
    dsimp only
    split
    · next hsome => exact iff_of_true rfl hsome
    · next hsome => exact iff_of_false one_ne_zero hsome
  rw [PingMatches, cpeAgentLivePingTick, if_neg hnone, FirstDecides]
  simp only [Option.some.injEq, exists_eq_left', hloss]
  refine iff_iff_and_or_not_and_not.trans ?_
  simp only [not_exists, not_and]

theorem quotesProbe_of_type {d : Datagram} (h : d.QuotesProbe id seq) :
    d.Carries (Datagram.OfType 3) := by
  obtain ⟨msg, hmsg, htype, -⟩ := h
  exact ⟨msg, hmsg, htype⟩

theorem repliesTo_of_type {d : Datagram} (h : d.RepliesTo id seq) :
    d.Carries (Datagram.OfType 0) := by
  obtain ⟨msg, hmsg, ⟨htype, -⟩, -⟩ := h
  exact ⟨msg, hmsg, htype⟩

/-- A message has one type. -/
theorem type_unique {d : Datagram} {t t' : UInt8} (h : d.Carries (Datagram.OfType t))
    (h' : d.Carries (Datagram.OfType t')) : t = t' := by
  obtain ⟨msg, hmsg, ht⟩ := h
  obtain ⟨msg', hmsg', ht'⟩ := h'
  obtain rfl := Option.some.inj (hmsg.symm.trans hmsg')
  exact Option.some.inj (ht.symm.trans ht')

theorem probeMatches_iff (hraw : ex.isRaw = true) (hsent : ex.sent = true) :
    ProbeMatches ex id seq ↔ FirstOwn ex id seq := by
  have hdest := probeIcmpOnce_dest_iff hraw hsent
  constructor
  · intro h d hd
    -- either type alone makes the probe report the destination
    have hown : ∀ t, t = 0 ∨ t = 3 → d.Carries (Datagram.OfType t) →
        d.RepliesTo id seq ∨ d.QuotesProbe id seq := by
      intro t ht hcarries
      obtain ⟨addr, rtt, hres⟩ := hdest.mpr ⟨d, hd, by
        rcases ht with rfl | rfl
        · exact Or.inl hcarries
        · exact Or.inr hcarries⟩
      obtain ⟨d', hd', hd'own⟩ := h addr rtt hres
      obtain rfl := Option.some.inj (hd.symm.trans hd')
      exact hd'own
    refine ⟨fun hzero ↦ ?_, fun hthree ↦ ?_⟩
    · rcases hown 0 (Or.inl rfl) hzero with hreply | hquote
      · exact hreply
      · exact absurd (type_unique hzero (quotesProbe_of_type hquote)) (by decide)
    · rcases hown 3 (Or.inr rfl) hthree with hreply | hquote
      · exact absurd (type_unique hthree (repliesTo_of_type hreply)) (by decide)
      · exact hquote
  · intro h addr rtt hres
    obtain ⟨d, hd, htype⟩ := hdest.mp ⟨addr, rtt, hres⟩
    refine ⟨d, hd, ?_⟩
    rcases htype with hzero | hthree
    · exact Or.inl ((h d hd).1 hzero)
    · exact Or.inr ((h d hd).2 hthree)

/-- On a raw socket, for everything that arrives before the timeout, in every order: the ping and
the probe match their replies exactly when the first datagram does not mislead them. -/
theorem replies_matched_iff (cfg : CpeAgentConfig) (clock : Option WallClock) (ex : IcmpExchange)
    (id seq : UInt16) (hraw : ex.isRaw = true) (hsent : ex.sent = true)
    (htarget : (inetPton4 cfg.demoTarget).isSome = true) :
    (PingMatches cfg clock ex id seq ↔ FirstDecides ex id seq) ∧
      (ProbeMatches ex id seq ↔ FirstOwn ex id seq) :=
  ⟨pingMatches_iff clock hraw hsent htarget, probeMatches_iff hraw hsent⟩

/-- A raw datagram: an IP header without options, and an echo reply. -/
def echoReply (id seq : UInt8) : Datagram :=
  ⟨0x01010101, 0x45 :: List.replicate 19 0 ++ [0, 0, 0, 0, 0, id, 0, seq], 2000000⟩

def rawExchange (datagrams : List Datagram) : IcmpExchange := ⟨true, true, 1000000, datagrams⟩

theorem carries_echoReply (id seq : UInt8) (P : List UInt8 → Prop) :
    (echoReply id seq).Carries P ↔ P [0, 0, 0, 0, 0, id, 0, seq] := by
  have hmsg : icmpPayload (echoReply id seq).bytes true = some [0, 0, 0, 0, 0, id, 0, seq] := by
    simp [icmpPayload, echoReply, readByte, List.replicate]
  simp only [Datagram.Carries, hmsg, Option.some.injEq, exists_eq_left']

/-- The reply alone. -/
theorem replies_matched_alone :
    PingMatches cpeAgentConfigDefaults none (rawExchange [echoReply 7 1]) 7 1 ∧
      ProbeMatches (rawExchange [echoReply 7 1]) 7 1 := by
  have hreply : (echoReply 7 1).RepliesTo 7 1 :=
    (carries_echoReply 7 1 _).mpr ⟨⟨rfl, rfl⟩, rfl⟩
  have hseq : (echoReply 7 1).Carries (Datagram.OfSeq 0 1) :=
    (carries_echoReply 7 1 _).mpr ⟨rfl, rfl⟩
  obtain ⟨hping, hprobe⟩ := replies_matched_iff cpeAgentConfigDefaults none
    (rawExchange [echoReply 7 1]) 7 1 rfl rfl (by decide)
  refine ⟨hping.mpr (Or.inl ⟨⟨_, rfl, hseq⟩, _, List.mem_cons_self, hreply⟩),
    hprobe.mpr fun d hd ↦ ?_⟩
  obtain rfl := Option.some.inj hd
  refine ⟨fun _ ↦ hreply, fun hthree ↦ ?_⟩
  exact absurd (type_unique hthree (repliesTo_of_type hreply)) (by decide)

/-- A reply to another process comes first: with another sequence number it hides the reply, with
the same one it passes for it, and the probe takes it for its own. -/
theorem replies_mismatched :
    ¬ PingMatches cpeAgentConfigDefaults none (rawExchange [echoReply 8 2, echoReply 7 1]) 7 1 ∧
      ¬ PingMatches cpeAgentConfigDefaults none (rawExchange [echoReply 8 1]) 7 1 ∧
      ¬ ProbeMatches (rawExchange [echoReply 8 1]) 7 1 := by
  have hother : ¬ (echoReply 8 2).Carries (Datagram.OfSeq 0 1) := by
    rw [carries_echoReply]
    rintro ⟨-, hseq⟩
    exact absurd hseq (by decide)
  have hforeign : ¬ (echoReply 8 1).RepliesTo 7 1 := by
    rw [Datagram.RepliesTo, carries_echoReply]
    rintro ⟨-, hid⟩
    exact absurd hid (by decide)
  refine ⟨fun h ↦ ?_, fun h ↦ ?_, fun h ↦ ?_⟩
  · rcases (pingMatches_iff none rfl rfl (by decide)).mp h with ⟨⟨d, hd, hseq⟩, -⟩ | ⟨-, hnone⟩
    · obtain rfl := Option.some.inj hd
      exact hother hseq
    · refine hnone (echoReply 7 1) (by simp [rawExchange]) ?_
      exact (carries_echoReply 7 1 _).mpr ⟨⟨rfl, rfl⟩, rfl⟩
  · rcases (pingMatches_iff none rfl rfl (by decide)).mp h with ⟨-, d, hd, hreply⟩ | ⟨hfirst, -⟩
    · obtain rfl := List.mem_singleton.mp hd
      exact hforeign hreply
    · exact hfirst _ rfl ((carries_echoReply 8 1 _).mpr ⟨rfl, rfl⟩)
  · refine hforeign (((probeMatches_iff rfl rfl).mp h (echoReply 8 1) rfl).1 ?_)
    exact (carries_echoReply 8 1 _).mpr rfl

end NetForensics
