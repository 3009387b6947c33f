import NetForensics.Correlate.Bmp

/-!
# The width of an observation

Both observation formatters report success whenever the buffer has 32 bytes, and cut off what does
not fit. So a success can be trusted only where the text is shorter than the buffer, and its length
is a sum over its members: fixed names, the identifiers, and numerals.
-/

namespace NetForensics

/-! ## Addresses -/

theorem length_intercalate (sep : CStr) (s : CStr) (ss : List CStr) :
    (List.intercalate sep (s :: ss)).length
      = s.length + (ss.map fun t ↦ sep.length + t.length).sum := by
  induction ss generalizing s with
  | nil => simp [List.intercalate]
  | cons t ss ih =>
    have hcons : List.intercalate sep (s :: t :: ss) = s ++ sep ++ List.intercalate sep (t :: ss) :=
      by simp [List.intercalate]
    rw [hcons, List.length_append, List.length_append, ih, List.map_cons, List.sum_cons]
    omega

def quadWidth (a : UInt32) : ℕ := 3 + ((octets a).map fun b ↦ digits b.toNat).sum

theorem length_inetNtop4 (a : UInt32) : (inetNtop4 a).length = quadWidth a := by
  rw [inetNtop4, octets, List.map_cons, length_intercalate, quadWidth, octets]
  simp only [List.map_cons, List.map_nil, List.sum_cons, List.sum_nil, List.length_cons,
    List.length_nil, digits]
  omega

theorem length_ipv6Hex (a : In6Addr) : (ipv6Hex a).length = 39 := by
  have hgroups : (List.intercalate [58] ((List.finRange 8).map fun (i : Fin 8) ↦
      hex2 (a ⟨2 * i.val, highByte_lt i⟩) ++ hex2 (a ⟨2 * i.val + 1, lowByte_lt i⟩))).length
      = 39 := by
    rw [List.finRange_succ, List.map_cons, length_intercalate, List.map_map]
    simp [length_hex2, Function.comp_def]
  rw [ipv6Hex, copyStr_of_length_lt (by rw [hgroups]; decide), hgroups]

/-! ## Lines -/

/-- The length of `address:port` for one end of an observation. -/
def endWidth (isIpv6 : Bool) (ip : UInt32) (port : UInt16) : ℕ :=
  (if isIpv6 then 42 else quadWidth ip + 1) + digits port.toNat

theorem length_endpoint4 (ip : UInt32) (port : UInt16) :
    (endpoint4 ip port).length = quadWidth ip + 1 + digits port.toNat := by
  rw [endpoint4, List.length_append, List.length_cons, length_inetNtop4, digits]
  omega

theorem length_endpoint6 (ip : In6Addr) (port : UInt16) :
    (endpoint6 ip port).length = 42 + digits port.toNat := by
  rw [endpoint6, List.length_append, List.length_cons, List.length_cons, List.length_cons,
    length_ipv6Hex, digits]
  omega

theorem length_end (isIpv6 : Bool) (ip6 : In6Addr) (ip : UInt32) (port : UInt16) :
    (if isIpv6 then endpoint6 ip6 port else endpoint4 ip port).length
      = endWidth isIpv6 ip port := by
  cases isIpv6 with
  | true => exact length_endpoint6 ip6 port
  | false => exact length_endpoint4 ip port

def obsWidth (obs : NfFlowObs) : ℕ :=
  if obs.fromCpe then
    if obs.isDestroy && obs.srcPort == 0 && obs.wanSrcPort == 0 && obs.hasCtId then
      63 + obs.routerId.length + digits obs.tsMs.toNat + digits obs.ctId.toNat
    else
      89 + (if obs.event ≠ [] then obs.event.length else 3) + obs.routerId.length +
        digits obs.tsMs.toNat + endWidth obs.isIpv6 obs.srcIp obs.srcPort +
        endWidth obs.isIpv6 obs.wanSrcIp obs.wanSrcPort + digits obs.protocol.toNat +
        if obs.hasCtId then 9 + digits obs.ctId.toNat else 0
  else
    54 + obs.routerId.length + digits obs.tsMs.toNat + endWidth false obs.srcIp obs.srcPort +
      endWidth false obs.dstIp obs.dstPort + digits obs.protocol.toNat

theorem length_obsMembers (obs : NfFlowObs) : (object (obsMembers obs)).length = obsWidth obs := by
  have hnat : (ascii "cpe_nat").length = 7 := rfl
  have hdestroy : (ascii "DESTROY").length = 7 := rfl
  have hipfix : (ascii "ipfix").length = 5 := rfl
  have hevent : (if obs.event ≠ [] then obs.event else ascii "NEW").length
      = if obs.event ≠ [] then obs.event.length else 3 := apply_ite List.length _ _ _
  have hversion : (decimal (if obs.isIpv6 then 6 else 4)).length = 1 := by
    cases obs.isIpv6 <;> decide
  rw [obsMembers, obsWidth]
  -- one case for each of the three lines the formatter knows
  split
  · split
    · rw [length_object (by simp)]
      simp only [List.map_cons, List.map_nil, List.sum_cons, List.sum_nil, length_quoted, hnat,
        hdestroy, String.reduceToList, List.length_cons, List.length_nil, digits]
      ring
    · rw [length_object (by simp), List.map_append, List.sum_append]
      simp only [List.map_cons, List.map_nil, List.sum_cons, List.sum_nil, length_quoted, hnat,
        hevent, hversion, length_end, String.reduceToList, List.length_cons, List.length_nil]
      cases obs.hasCtId with
      | true =>
        simp only [if_true, List.map_cons, List.map_nil, List.sum_cons, List.sum_nil,
          String.reduceToList, List.length_cons, List.length_nil, digits]
        ring
      | false =>
        simp only [if_neg Bool.false_ne_true, List.map_nil, List.sum_nil, digits]
        ring
  · rw [length_object (by simp)]
    simp only [List.map_cons, List.map_nil, List.sum_cons, List.sum_nil, length_quoted, hipfix,
      List.length_append, length_endpoint4, endWidth, String.reduceToList, List.length_cons,
      List.length_nil, digits, if_neg Bool.false_ne_true]
    ring

def bmpObsWidth (obs : NfBmpObs) : ℕ :=
  52 + obs.routerId.length + obs.event.length +
    (if obs.hasPeer then
      49 + digits obs.tsMs.toNat + digits obs.peerAs.toNat + quadWidth obs.peerBgpId +
        obs.peerAddrStr.length
    else 0) +
    digits obs.payloadLen.toNat + if obs.payloadTruncated then 25 else 0

theorem length_bmpObsMembers (obs : NfBmpObs) :
    (object (bmpObsMembers obs)).length = bmpObsWidth obs := by
  have htype : (ascii "bmp").length = 3 := rfl
  have htrue : (ascii "true").length = 4 := rfl
  rw [length_object (by simp [bmpObsMembers]), bmpObsMembers, bmpObsWidth, List.map_append,
    List.map_append, List.sum_append, List.sum_append]
  simp only [List.map_cons, List.map_nil, List.sum_cons, List.sum_nil, length_quoted, htype,
    String.reduceToList, List.length_cons, List.length_nil]
  cases obs.hasPeer <;> cases obs.payloadTruncated <;>
    simp only [if_true, if_false, Bool.false_eq_true, List.map_cons, List.map_nil, List.sum_cons,
      List.sum_nil, length_quoted, length_inetNtop4, htrue, String.reduceToList, List.length_cons,
      List.length_nil, digits] <;>
    ring

/-! ## What a success says -/

/-- A formatter that prints `text` succeeds only with the whole of it in the buffer, and fails when
it does not fit. -/
structure FormatsWhole (text : CStr) (buflen : ℕ) (result : Option CStr) : Prop where
  whole : ∀ line, result = some line → line = text
  fails : buflen ≤ text.length → result = none

theorem formatsWhole_copyStr_iff {text : CStr} {buflen : ℕ} (h : 32 ≤ buflen) :
    FormatsWhole text buflen (if buflen < 32 then none else some (copyStr buflen text)) ↔
      text.length < buflen := by
  rw [if_neg (not_lt.mpr h)]
  constructor
  · intro hwhole
    by_contra hlong
    exact absurd (hwhole.fails (not_lt.mp hlong)) (Option.some_ne_none _)
  · intro hfit
    refine ⟨fun line hline ↦ ?_, fun hlong ↦ absurd hfit (not_lt.mpr hlong)⟩
    rw [← Option.some.inj hline, copyStr_of_length_lt hfit]

/-- With a buffer of 32 bytes or more, a success of either formatter means a whole line exactly when
the line is shorter than the buffer. -/
theorem obsFormat_whole_iff (obs : NfFlowObs) (bmp : NfBmpObs) (buflen : ℕ) (h : 32 ≤ buflen) :
    (FormatsWhole (object (obsMembers obs)) buflen (nfObsFormat obs buflen) ↔
      obsWidth obs < buflen) ∧
    (FormatsWhole (object (bmpObsMembers bmp)) buflen (nfBmpObsFormat bmp buflen) ↔
      bmpObsWidth bmp < buflen) := by
  rw [nfObsFormat, nfBmpObsFormat, formatsWhole_copyStr_iff h, formatsWhole_copyStr_iff h,
    length_obsMembers, length_bmpObsMembers]
  exact ⟨Iff.rfl, Iff.rfl⟩

def bareBmpObs : NfBmpObs := ⟨ascii "rr-core-1", ascii "initiation", 0, 0, 0, false, 0, false, []⟩

/-- Two observations and the buffer of a spool line. -/
theorem obsFormat_whole_bare :
    FormatsWhole (object (obsMembers .zero)) 768 (nfObsFormat .zero 768) ∧
      FormatsWhole (object (bmpObsMembers bareBmpObs)) 768 (nfBmpObsFormat bareBmpObs 768) :=
  ⟨(obsFormat_whole_iff .zero bareBmpObs 768 (by decide)).1.mpr (by decide),
    (obsFormat_whole_iff .zero bareBmpObs 768 (by decide)).2.mpr (by decide)⟩

/-- In a buffer of 32 bytes both are cut off, and reported as printed. -/
theorem obsFormat_cut :
    nfObsFormat .zero 32 = some (ascii "\x7b\"type\":\"ipfix\",\"router\":\"\",\"ts") ∧
      ¬ FormatsWhole (object (obsMembers .zero)) 32 (nfObsFormat .zero 32) ∧
      ¬ FormatsWhole (object (bmpObsMembers bareBmpObs)) 32 (nfBmpObsFormat bareBmpObs 32) := by
  refine ⟨by decide, fun h ↦ ?_, fun h ↦ ?_⟩
  · exact absurd (h.fails (by decide)) (by decide)
  · exact absurd (h.fails (by decide)) (by decide)

end NetForensics
