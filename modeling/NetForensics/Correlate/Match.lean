import NetForensics.Correlate.Obs

/-!
# Matching the two sides of a translated flow

`nf_flows_correlate` compares what a CPE reports about a connection it translates with what a core
router exports about a flow. Addresses of the two families are kept in different fields and compared
by different code, so the rule that both branches are meant to follow is stated once, over addresses
of either family (`SameFlow`).
-/

namespace NetForensics

/-- The loop that looks for a byte other than zero. -/
def isZero6 (a : In6Addr) : Bool := (List.finRange 16).all fun i ↦ a i == 0

theorem isZero6_iff (a : In6Addr) : isZero6 a = true ↔ a = 0 := by
  rw [isZero6, List.all_eq_true, funext_iff]
  refine forall_congr' fun i ↦ ?_
  rw [forall_prop_of_true (List.mem_finRange i), beq_iff_eq]
  rfl

namespace NfFlowObs

/-- The IPv6 branch of `nf_flows_correlate`: whether it finds the addresses or ports to differ. -/
def differs6 (cpe core : NfFlowObs) : Bool :=
  if cpe.wanSrcIp6 ≠ core.srcIp6 then true
  else if cpe.wanSrcPort ≠ core.srcPort then true
  else !isZero6 cpe.dstIp6 && cpe.dstIp6 != core.dstIp6

/-- The IPv4 branch. -/
def differs4 (cpe core : NfFlowObs) : Bool :=
  if cpe.wanSrcIp ≠ core.srcIp ∨ cpe.wanSrcPort ≠ core.srcPort then true
  else cpe.dstIp != 0 && core.dstIp != 0 && cpe.dstIp != core.dstIp

end NfFlowObs

/-- `nf_flows_correlate`, of two observations that are there. -/
def nfFlowsCorrelate (cpe core : NfFlowObs) (maxSkewMs : UInt64) : ℤ :=
  if !cpe.fromCpe || core.fromCpe then -1
  else if cpe.isIpv6 ≠ core.isIpv6 then 0
  else if cpe.protocol ≠ core.protocol then 0
  else if (if cpe.isIpv6 then cpe.differs6 core else cpe.differs4 core) then 0
  else
    let dt := if core.tsMs < cpe.tsMs then cpe.tsMs - core.tsMs else core.tsMs - cpe.tsMs
    if maxSkewMs < dt then 0 else 1

/-! ## The rule -/

/-- An address of either family. -/
abbrev InetAddr := UInt32 ⊕ In6Addr

def InetAddr.Unknown (a : InetAddr) : Prop := a = .inl 0 ∨ a = .inr 0

namespace NfFlowObs

def src (obs : NfFlowObs) : InetAddr := if obs.isIpv6 then .inr obs.srcIp6 else .inl obs.srcIp

def dst (obs : NfFlowObs) : InetAddr := if obs.isIpv6 then .inr obs.dstIp6 else .inl obs.dstIp

def wanSrc (obs : NfFlowObs) : InetAddr :=
  if obs.isIpv6 then .inr obs.wanSrcIp6 else .inl obs.wanSrcIp

/-- Everything but the destinations agrees. -/
structure SameSource (cpe core : NfFlowObs) (maxSkewMs : UInt64) : Prop where
  family : cpe.isIpv6 = core.isIpv6
  protocol : cpe.protocol = core.protocol
  addr : cpe.wanSrc = core.src
  port : cpe.wanSrcPort = core.srcPort
  skew : |(cpe.tsMs.toNat : ℤ) - core.tsMs.toNat| ≤ maxSkewMs.toNat

/-- The two observations are of one flow: the destinations agree as well, unless one of them is
unknown. -/
structure SameFlow (cpe core : NfFlowObs) (maxSkewMs : UInt64) : Prop
    extends SameSource cpe core maxSkewMs where
  dst : cpe.dst = core.dst ∨ cpe.dst.Unknown ∨ core.dst.Unknown

theorem unknown_dst_iff (obs : NfFlowObs) :
    obs.dst.Unknown ↔ if obs.isIpv6 then obs.dstIp6 = 0 else obs.dstIp = 0 := by
  rw [NfFlowObs.dst, InetAddr.Unknown]
  cases obs.isIpv6 <;> simp

/-! ## What the code decides -/

theorem skew_iff (s t maxSkewMs : UInt64) :
    (maxSkewMs < if t < s then s - t else t - s) ↔
      ¬ |(s.toNat : ℤ) - t.toNat| ≤ maxSkewMs.toNat := by
  rw [not_le, UInt64.lt_iff_toNat_lt]
  split
  · rename_i h
    have hle : t.toNat ≤ s.toNat := (UInt64.lt_iff_toNat_lt.mp h).le
    rw [UInt64.toNat_sub_of_le _ _ (UInt64.le_iff_toNat_le.mpr hle), abs_of_nonneg (by omega)]
    omega
  · rename_i h
    have hle : s.toNat ≤ t.toNat := Nat.le_of_not_lt fun hlt ↦ h (UInt64.lt_iff_toNat_lt.mpr hlt)
    rw [UInt64.toNat_sub_of_le _ _ (UInt64.le_iff_toNat_le.mpr hle), abs_of_nonpos (by omega)]
    omega

theorem differs6_eq_false_iff (cpe core : NfFlowObs) :
    cpe.differs6 core = false ↔ cpe.wanSrcIp6 = core.srcIp6 ∧ cpe.wanSrcPort = core.srcPort ∧
      (cpe.dstIp6 = core.dstIp6 ∨ cpe.dstIp6 = 0) := by
  have hzero : isZero6 cpe.dstIp6 = true ↔ cpe.dstIp6 = 0 := isZero6_iff _
  unfold differs6
  grind

theorem differs4_eq_false_iff (cpe core : NfFlowObs) :
    cpe.differs4 core = false ↔ cpe.wanSrcIp = core.srcIp ∧ cpe.wanSrcPort = core.srcPort ∧
      (cpe.dstIp = core.dstIp ∨ cpe.dstIp = 0 ∨ core.dstIp = 0) := by
  unfold differs4
  grind

/-- Both branches decide by the sources and the ports. They differ in which destinations they take
to be known. -/
theorem differs_eq_false_iff {cpe core : NfFlowObs} (hfamily : cpe.isIpv6 = core.isIpv6) :
    (if cpe.isIpv6 then cpe.differs6 core else cpe.differs4 core) = false ↔
      cpe.wanSrc = core.src ∧ cpe.wanSrcPort = core.srcPort ∧
        (cpe.dst = core.dst ∨ cpe.dst.Unknown ∨ cpe.isIpv6 = false ∧ core.dst.Unknown) := by
  rw [unknown_dst_iff, unknown_dst_iff]
  unfold wanSrc src dst
  rw [← hfamily]
  cases cpe.isIpv6 with
  | true => simpa using differs6_eq_false_iff cpe core
  | false => simpa using differs4_eq_false_iff cpe core

/-- The code follows the rule but for the destinations of IPv6, of which only the CPE's may be
unknown. -/
theorem correlate_eq_one_iff {cpe core : NfFlowObs} (hcpe : cpe.fromCpe = true)
    (hcore : core.fromCpe = false) (maxSkewMs : UInt64) :
    nfFlowsCorrelate cpe core maxSkewMs = 1 ↔ cpe.SameSource core maxSkewMs ∧
      (cpe.dst = core.dst ∨ cpe.dst.Unknown ∨ cpe.isIpv6 = false ∧ core.dst.Unknown) := by
  have hfrom : ¬(!cpe.fromCpe || core.fromCpe) = true := by rw [hcpe, hcore]; decide
  have hne : ¬(0 : ℤ) = 1 := by decide
  rw [nfFlowsCorrelate, if_neg hfrom]
  by_cases hfamily : cpe.isIpv6 = core.isIpv6
  · rw [if_neg (not_not.mpr hfamily)]
    by_cases hproto : cpe.protocol = core.protocol
    · rw [if_neg (not_not.mpr hproto)]
      by_cases hdiff : (if cpe.isIpv6 then cpe.differs6 core else cpe.differs4 core) = true
      · rw [if_pos hdiff]
        refine iff_of_false hne fun ⟨h, hdst⟩ ↦ ?_
        have hsame := (differs_eq_false_iff hfamily).mpr ⟨h.addr, h.port, hdst⟩
        exact absurd hdiff (Bool.eq_false_iff.mp hsame)
      · obtain ⟨haddr, hport, hdst⟩ :=
          (differs_eq_false_iff hfamily).mp (Bool.eq_false_iff.mpr hdiff)
        rw [if_neg hdiff]
        dsimp only
        by_cases hskew : |(cpe.tsMs.toNat : ℤ) - core.tsMs.toNat| ≤ maxSkewMs.toNat
        · rw [if_neg fun hlt ↦ (skew_iff _ _ _).mp hlt hskew]
          exact iff_of_true rfl ⟨⟨hfamily, hproto, haddr, hport, hskew⟩, hdst⟩
        · rw [if_pos ((skew_iff _ _ _).mpr hskew)]
          exact iff_of_false hne fun h ↦ hskew h.1.skew
    · rw [if_pos hproto]
      exact iff_of_false hne fun h ↦ hproto h.1.protocol
  · rw [if_pos hfamily]
    exact iff_of_false hne fun h ↦ hfamily h.1.family

/-! ## One rule for both families -/

/-- The code decides by the rule, unless the flow is IPv6 and it is the destination of the core's
record that is unknown. -/
theorem correlate_decides_iff {cpe core : NfFlowObs} (hcpe : cpe.fromCpe = true)
    (hcore : core.fromCpe = false) (maxSkewMs : UInt64) :
    (nfFlowsCorrelate cpe core maxSkewMs = 1 ↔ cpe.SameFlow core maxSkewMs) ↔
      ¬(cpe.isIpv6 = true ∧ cpe.dstIp6 ≠ 0 ∧ core.dstIp6 = 0 ∧
        cpe.SameSource core maxSkewMs) := by
  rw [correlate_eq_one_iff hcpe hcore]
  constructor
  · rintro h ⟨h6, hknown, hzero, hsame⟩
    have h6' : core.isIpv6 = true := hsame.family ▸ h6
    have hunknown : core.dst.Unknown := by rwa [unknown_dst_iff, h6', if_pos rfl]
    have hdst : cpe.dst ≠ core.dst := by
      rw [NfFlowObs.dst, NfFlowObs.dst, h6, h6', if_pos rfl, if_pos rfl, hzero]
      exact fun h ↦ hknown (Sum.inr.inj h)
    obtain ⟨-, heq | hcpe0 | ⟨h4, -⟩⟩ := h.mpr ⟨hsame, Or.inr (Or.inr hunknown)⟩
    · exact hdst heq
    · rw [unknown_dst_iff, h6, if_pos rfl] at hcpe0
      exact hknown hcpe0
    · rw [h6] at h4
      exact Bool.noConfusion h4
  · intro hcond
    constructor
    · rintro ⟨hsame, heq | hcpe0 | ⟨-, hunknown⟩⟩
      · exact ⟨hsame, Or.inl heq⟩
      · exact ⟨hsame, Or.inr (Or.inl hcpe0)⟩
      · exact ⟨hsame, Or.inr (Or.inr hunknown)⟩
    · rintro ⟨hsame, heq | hcpe0 | hunknown⟩
      · exact ⟨hsame, Or.inl heq⟩
      · exact ⟨hsame, Or.inr (Or.inl hcpe0)⟩
      · refine ⟨hsame, ?_⟩
        by_cases h6 : cpe.isIpv6 = true
        · rw [unknown_dst_iff, ← hsame.family, h6, if_pos rfl] at hunknown
          by_cases hzero : cpe.dstIp6 = 0
          · exact Or.inr (Or.inl ((unknown_dst_iff cpe).mpr (by rwa [h6, if_pos rfl])))
          · exact absurd ⟨h6, hzero, hunknown, hsame⟩ hcond
        · exact Or.inr (Or.inr ⟨Bool.eq_false_iff.mpr h6, hunknown⟩)

/-- What a CPE reports of a flow from port 2222, one millisecond after the epoch. -/
def sampleCpe (v6 : Bool) : NfFlowObs :=
  { zero with
    fromCpe := true, isIpv6 := v6, protocol := 17, wanSrcPort := 2222, tsMs := 1
    dstIp := 8, dstIp6 := fun _ ↦ 8 }

/-- What a core router exports of it when it does not know the destination. -/
def sampleCore (v6 : Bool) : NfFlowObs :=
  { zero with isIpv6 := v6, protocol := 17, srcPort := 2222, tsMs := 1 }

theorem sameSource_sample (v6 : Bool) : (sampleCpe v6).SameSource (sampleCore v6) 1000 where
  family := rfl
  protocol := rfl
  addr := by cases v6 <;> rfl
  port := rfl
  skew := by cases v6 <;> decide

theorem unknown_dst_sampleCore (v6 : Bool) : (sampleCore v6).dst.Unknown := by
  cases v6 with
  | false => exact Or.inl rfl
  | true => exact Or.inr rfl

/-- Over IPv4 the destination the core does not know is left alone. -/
theorem correlate_decides_v4 : nfFlowsCorrelate (sampleCpe false) (sampleCore false) 1000 = 1 :=
  ((@correlate_decides_iff (sampleCpe false) (sampleCore false) rfl rfl 1000).mpr
    fun h ↦ Bool.noConfusion h.1).mpr
    ⟨sameSource_sample false, Or.inr (Or.inr (unknown_dst_sampleCore false))⟩

/-- Over IPv6 the same pair is not matched. -/
theorem correlate_misses_v6 :
    ¬ ∀ cpe core : NfFlowObs, cpe.fromCpe = true → core.fromCpe = false → ∀ maxSkewMs : UInt64,
      (nfFlowsCorrelate cpe core maxSkewMs = 1 ↔ cpe.SameFlow core maxSkewMs) := by
  intro h
  have hflow : (sampleCpe true).SameFlow (sampleCore true) 1000 :=
    ⟨sameSource_sample true, Or.inr (Or.inr (unknown_dst_sampleCore true))⟩
  have hone := (h (sampleCpe true) (sampleCore true) rfl rfl 1000).mpr hflow
  exact absurd hone (by decide)

end NfFlowObs

end NetForensics
