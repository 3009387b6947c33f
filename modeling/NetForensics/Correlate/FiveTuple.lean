import NetForensics.Correlate.Match
import NetForensics.Correlate.NatLine

/-!
# Five-tuples of matched flows

An event and an exported record each have a five-tuple, and a match should mean that the two are the
same, as far as destinations are known. The builders of observations keep all five components. The
comparison leaves out the destination port.
-/

namespace NetForensics

/-- Protocol, source and destination of a flow as it leaves the router. -/
structure FiveTuple where
  protocol : UInt8
  src : InetAddr
  srcPort : UInt16
  dst : InetAddr
  dstPort : UInt16
  deriving DecidableEq

def NfctEvent.wanTuple (ev : NfctEvent) : FiveTuple where
  protocol := ev.protocol
  src := if ev.isIpv6 then .inr ev.wanSrcIp6 else .inl ev.wanSrcIp
  srcPort := ev.wanSrcPort
  dst := if ev.isIpv6 then .inr ev.lanDstIp6 else .inl ev.lanDstIp
  dstPort := ev.lanDstPort

def IpfixFlowKey.tuple (key : IpfixFlowKey) : FiveTuple where
  protocol := key.protocol
  src := .inl key.srcIpv4
  srcPort := key.srcPort
  dst := .inl key.dstIpv4
  dstPort := key.dstPort

def IpfixFlowKey.timeMs (key : IpfixFlowKey) (fallbackTsMs : UInt64) : UInt64 :=
  if key.hasStartMs then key.flowStartMs else fallbackTsMs

/-- Two five-tuples with the same destination address that agree but for the destination port. -/
structure FiveTuple.SamePath (t u : FiveTuple) : Prop where
  protocol : t.protocol = u.protocol
  src : t.src = u.src
  srcPort : t.srcPort = u.srcPort
  dst : t.dst = u.dst

theorem FiveTuple.eq_iff (t u : FiveTuple) : t = u ↔ t.SamePath u ∧ t.dstPort = u.dstPort := by
  constructor
  · rintro rfl
    exact ⟨⟨rfl, rfl, rfl, rfl⟩, rfl⟩
  · rintro ⟨⟨hprotocol, hsrc, hsrcPort, hdst⟩, hport⟩
    cases t
    congr

/-! ## What the builders keep -/

variable {lib : ForensicsLib} {ev : NfctEvent} {routerId routerId' : Option CStr} {tsMs : UInt64}
  {key : IpfixFlowKey} {fallbackTsMs : UInt64} {cpe core : NfFlowObs}

theorem dst_of_nfct (hlan : ev.hasLan = true)
    (hobs : nfObsFromNfct lib ev routerId tsMs = some cpe) : cpe.dst = ev.wanTuple.dst := by
  rw [nfObsFromNfct, hlan] at hobs
  simp only [Bool.not_true, Bool.and_false, Bool.false_and, Bool.false_eq_true, if_false] at hobs
  rw [NfctEvent.wanTuple]
  cases hv6 : ev.isIpv6 with
  | true =>
    rw [hv6, if_pos rfl] at hobs
    obtain ⟨t, -, rfl⟩ := Option.map_eq_some_iff.mp hobs
    rfl
  | false =>
    rw [hv6, if_neg Bool.false_ne_true] at hobs
    obtain ⟨t, -, rfl⟩ := Option.map_eq_some_iff.mp hobs
    rfl

theorem wanSrc_of_nfct (hlib : lib.Faithful ev) (hlan : ev.hasLan = true)
    (hobs : nfObsFromNfct lib ev routerId tsMs = some cpe) : cpe.wanSrc = ev.wanTuple.src := by
  obtain ⟨-, -, -, -, -, -, -, hv6, -, -, -, h6, h4⟩ := obs_of_nfct hlib hlan hobs
  rw [NfFlowObs.wanSrc, NfctEvent.wanTuple, hv6]
  cases hfamily : ev.isIpv6 with
  | true => rw [if_pos rfl, if_pos rfl, (h6 hfamily).2]
  | false => rw [if_neg Bool.false_ne_true, if_neg Bool.false_ne_true, (h4 hfamily).2]

theorem eq_of_ipfix (hobs : nfObsFromIpfix (some key) routerId fallbackTsMs = some core) :
    core.fromCpe = false ∧ core.isIpv6 = false ∧ core.protocol = key.protocol ∧
      core.src = key.tuple.src ∧ core.srcPort = key.srcPort ∧ core.dst = key.tuple.dst ∧
      core.tsMs = key.timeMs fallbackTsMs := by
  rw [nfObsFromIpfix, Option.bind_some] at hobs
  obtain ⟨-, hobs⟩ := Option.ite_none_right_eq_some.mp hobs
  obtain rfl := Option.some_inj.mp hobs
  exact ⟨rfl, rfl, rfl, rfl, rfl, rfl, rfl⟩

/-- When an event and a record are matched: the path is the same, and the times are close. Where the
destinations are known, that is all. -/
theorem matched_iff (hlib : lib.Faithful ev) (hlan : ev.hasLan = true)
    (hcpe : nfObsFromNfct lib ev routerId tsMs = some cpe)
    (hcore : nfObsFromIpfix (some key) routerId' fallbackTsMs = some core)
    (hdst : ¬ ev.wanTuple.dst.Unknown) (hdst' : ¬ key.tuple.dst.Unknown) (maxSkewMs : UInt64) :
    nfFlowsCorrelate cpe core maxSkewMs = 1 ↔ key.tuple.SamePath ev.wanTuple ∧
      |(tsMs.toNat : ℤ) - (key.timeMs fallbackTsMs).toNat| ≤ maxSkewMs.toNat := by
  obtain ⟨hfrom, -, -, -, -, -, hts, hv6, -, hport, hproto, -, -⟩ := obs_of_nfct hlib hlan hcpe
  obtain ⟨hfrom', hv6', hproto', hsrc', hport', hcoredst, hts'⟩ := eq_of_ipfix hcore
  have hcpedst := dst_of_nfct hlan hcpe
  have hsrc := wanSrc_of_nfct hlib hlan hcpe
  rw [NfFlowObs.correlate_eq_one_iff hfrom hfrom']
  constructor
  · rintro ⟨hsame, hends⟩
    have heq : cpe.dst = core.dst := by
      rw [hcpedst, hcoredst] at hends ⊢
      rcases hends with heq | hunknown | ⟨-, hunknown⟩
      · exact heq
      · exact absurd hunknown hdst
      · exact absurd hunknown hdst'
    refine ⟨⟨?_, ?_, ?_, ?_⟩, ?_⟩
    · exact (hproto'.symm.trans hsame.protocol.symm).trans hproto
    · exact (hsrc'.symm.trans hsame.addr.symm).trans hsrc
    · exact (hport'.symm.trans hsame.port.symm).trans hport
    · exact (hcoredst.symm.trans heq.symm).trans hcpedst
    · rw [← hts, ← hts']
      exact hsame.skew
  · rintro ⟨hpath, hskew⟩
    -- the record is IPv4, so an event with the same source is as well
    have hfamily : ev.isIpv6 = false := by
      by_contra h6
      have hsrc6 := hpath.src
      rw [NfctEvent.wanTuple, IpfixFlowKey.tuple, if_pos (Bool.eq_true_of_not_eq_false h6)] at hsrc6
      exact Sum.inl_ne_inr hsrc6
    refine ⟨⟨?_, ?_, ?_, ?_, ?_⟩, Or.inl ?_⟩
    · rw [hv6, hv6', hfamily]
    · exact (hproto.trans hpath.protocol.symm).trans hproto'.symm
    · exact (hsrc.trans hpath.src.symm).trans hsrc'.symm
    · exact (hport.trans hpath.srcPort.symm).trans hport'.symm
    · rw [hts, hts']
      exact hskew
    · exact (hcpedst.trans hpath.dst.symm).trans hcoredst.symm

/-! ## Soundness of a match -/

/-- Where everything the code compares agrees and the destinations are known, so do the destination
ports. -/
def PortsAgree (ev : NfctEvent) (tsMs : UInt64) (key : IpfixFlowKey)
    (fallbackTsMs maxSkewMs : UInt64) : Prop :=
  key.tuple.SamePath ev.wanTuple → ¬ key.tuple.dst.Unknown →
    |(tsMs.toNat : ℤ) - (key.timeMs fallbackTsMs).toNat| ≤ maxSkewMs.toNat →
    key.dstPort = ev.lanDstPort

theorem sound_iff (hlib : lib.Faithful ev) (hlan : ev.hasLan = true)
    (hcpe : nfObsFromNfct lib ev routerId tsMs = some cpe)
    (hcore : nfObsFromIpfix (some key) routerId' fallbackTsMs = some core) (maxSkewMs : UInt64) :
    (nfFlowsCorrelate cpe core maxSkewMs = 1 → ¬ cpe.dst.Unknown → ¬ core.dst.Unknown →
        key.tuple = ev.wanTuple) ↔
      PortsAgree ev tsMs key fallbackTsMs maxSkewMs := by
  obtain ⟨-, -, -, -, -, hcoredst, -⟩ := eq_of_ipfix hcore
  rw [dst_of_nfct hlan hcpe, hcoredst]
  constructor
  · intro h hpath hknown hskew
    have hknown' : ¬ ev.wanTuple.dst.Unknown := hpath.dst ▸ hknown
    have hone := (matched_iff hlib hlan hcpe hcore hknown' hknown maxSkewMs).mpr ⟨hpath, hskew⟩
    exact ((FiveTuple.eq_iff _ _).mp (h hone hknown' hknown)).2
  · intro h hone hknown' hknown
    obtain ⟨hpath, hskew⟩ := (matched_iff hlib hlan hcpe hcore hknown' hknown maxSkewMs).mp hone
    exact (FiveTuple.eq_iff _ _).mpr ⟨hpath, h hpath hknown hskew⟩

/-- A match of an event with both sides known and a record, both destinations known, means that the
five-tuples are the same, if and only if the destination ports agree wherever everything else does;
and where they do, bindings that go to different destination ports are not matched to one record. -/
theorem correlate_sound_iff (lib : ForensicsLib) (ev : NfctEvent) (routerId : Option CStr)
    (tsMs : UInt64) (cpe : NfFlowObs) (key : IpfixFlowKey) (routerId' : Option CStr)
    (fallbackTsMs : UInt64) (core : NfFlowObs) (maxSkewMs : UInt64) (hlib : lib.Faithful ev)
    (hboth : ev.hasLan = true ∧ ev.hasWan = true)
    (hcpe : nfObsFromNfct lib ev routerId tsMs = some cpe)
    (hcore : nfObsFromIpfix (some key) routerId' fallbackTsMs = some core) :
    ((nfFlowsCorrelate cpe core maxSkewMs = 1 → ¬ cpe.dst.Unknown → ¬ core.dst.Unknown →
        key.tuple = ev.wanTuple) ↔
      PortsAgree ev tsMs key fallbackTsMs maxSkewMs) ∧
    ∀ (ev' : NfctEvent) (tsMs' : UInt64) (cpe' : NfFlowObs),
      lib.Faithful ev' → ev'.hasLan = true ∧ ev'.hasWan = true →
      nfObsFromNfct lib ev' routerId tsMs' = some cpe' → ev'.wanSrcPort = ev.wanSrcPort →
      ev'.lanDstPort ≠ ev.lanDstPort →
      ¬ cpe.dst.Unknown → ¬ cpe'.dst.Unknown → ¬ core.dst.Unknown →
      PortsAgree ev tsMs key fallbackTsMs maxSkewMs →
      PortsAgree ev' tsMs' key fallbackTsMs maxSkewMs →
      ¬(nfFlowsCorrelate cpe core maxSkewMs = 1 ∧ nfFlowsCorrelate cpe' core maxSkewMs = 1) := by
  refine ⟨sound_iff hlib hboth.1 hcpe hcore maxSkewMs, ?_⟩
  intro ev' tsMs' cpe' hlib' hboth' hcpe' _ hne hknown hknown' hcoreKnown hports hports'
    ⟨hone, hone'⟩
  have htuple := (sound_iff hlib hboth.1 hcpe hcore maxSkewMs).mpr hports hone hknown hcoreKnown
  have htuple' :=
    (sound_iff hlib' hboth'.1 hcpe' hcore maxSkewMs).mpr hports' hone' hknown' hcoreKnown
  exact hne (congrArg FiveTuple.dstPort (htuple'.symm.trans htuple))

/-- A binding of 192.168.1.50 to 203.0.113.9:54321, towards a port of 8.8.8.8. -/
def lookupEvent (port : UInt16) : NfctEvent :=
  { NfctEvent.blank with
    type := .new, protocol := 6, hasLan := true, hasWan := true, lanSrcIp := 3232235826
    lanSrcPort := 12345, lanDstIp := 134744072, lanDstPort := port, wanSrcIp := 3405803785
    wanSrcPort := 54321 }

/-- The record of a flow from 203.0.113.9:54321 to port 53 of 8.8.8.8. -/
def lookupKey : IpfixFlowKey := ⟨3405803785, 134744072, 54321, 53, 6, true, 1700000000000, true⟩

def lookupCpe (port : UInt16) : NfFlowObs :=
  (nfObsFromNfct plainForensics (lookupEvent port) (some (ascii "cpe-1")) 1700000000050).getD
    NfFlowObs.zero

def lookupCore : NfFlowObs :=
  (nfObsFromIpfix (some lookupKey) (some (ascii "core-1")) 0).getD NfFlowObs.zero

/-- A match with the right port. -/
theorem correlate_sound_lookup : lookupKey.tuple = (lookupEvent 53).wanTuple :=
  (correlate_sound_iff plainForensics (lookupEvent 53) (some (ascii "cpe-1")) 1700000000050
    (lookupCpe 53) lookupKey (some (ascii "core-1")) 0 lookupCore 1000
    (faithful_plainForensics _) ⟨rfl, rfl⟩ rfl rfl).1.mpr
    (fun _ _ _ ↦ rfl) (by decide) (by unfold InetAddr.Unknown; decide)
    (by unfold InetAddr.Unknown; decide)

/-- Two bindings that share the WAN port and go to ports 53 and 443: the one record is matched to
both. -/
theorem correlate_matches_both_ports :
    ¬ (nfFlowsCorrelate (lookupCpe 443) lookupCore 1000 = 1 →
        ¬ (lookupCpe 443).dst.Unknown → ¬ lookupCore.dst.Unknown →
        lookupKey.tuple = (lookupEvent 443).wanTuple) ∧
      nfFlowsCorrelate (lookupCpe 53) lookupCore 1000 = 1 ∧
      nfFlowsCorrelate (lookupCpe 443) lookupCore 1000 = 1 := by
  refine ⟨fun h ↦ ?_, by decide, by decide⟩
  have heq := h (by decide) (by unfold InetAddr.Unknown; decide)
    (by unfold InetAddr.Unknown; decide)
  exact absurd (congrArg FiveTuple.dstPort heq) (by decide)

end NetForensics
