import NetForensics.Flow.DestroyLine

/-!
# The width of a record

`apply_event` formats a record in a buffer of 768 bytes and drops it when it does not fit: the
teardown is neither printed nor counted, and the slot is released all the same. How long a line gets
is a sum over its members, most of them numerals. With the addresses of IPv6 and counters of twenty
digits it exceeds the buffer.
-/

namespace NetForensics

theorem length_isoNow (clock : Option WallClock) : (isoNow clock).length = 24 := by
  cases clock with
  | none => rfl
  | some t =>
    have htwo : ∀ n : ℕ, n < 10 ^ 2 → (zeroPad 2 (decimal n)).length = 2 :=
      fun n hn ↦ length_zeroPad (length_decimal_le (by decide) hn)
    have hyear : (zeroPad 4 (decimal t.clampedYear)).length = 4 := by
      have hle : t.clampedYear < 10 ^ 4 := by
        rw [WallClock.clampedYear]
        omega
      exact length_zeroPad (length_decimal_le (by decide) hle)
    have hms : (zeroPad 3 (decimal t.ms)).length = 3 :=
      length_zeroPad (length_decimal_le (by decide) t.ms.isLt)
    have hmon := htwo (t.mon + 1) (by have := t.mon.isLt; omega)
    have hday := htwo t.mday (by have := t.mday.isLt; omega)
    have hhour := htwo t.hour (by have := t.hour.isLt; omega)
    have hminute := htwo t.minute (by have := t.minute.isLt; omega)
    have hsec := htwo t.sec (by have := t.sec.isLt; omega)
    rw [isoNow]
    simp only [List.length_append, List.length_cons, List.length_nil, hyear, hms, hmon, hday, hhour,
      hminute, hsec]

namespace CpeFlowEntry

def width (e : CpeFlowEntry) : ℕ :=
  max e.flowId.length 1 + digits (if e.hasCtId then e.ctId.toNat else 0) + digits e.proto.toNat +
    digits e.ipVersion.toNat +
    (e.lanIp.length + digits e.lanPort.toNat + e.wanIp.length + digits e.wanPort.toNat +
      e.remoteIp.length + digits e.remotePort.toNat) +
    (digits e.origBytes.toNat + digits e.replyBytes.toNat + digits e.origPkts.toNat +
      digits e.replyPkts.toNat + digits e.bytesUp.toNat + digits e.bytesDown.toNat +
      digits e.bytesUpDelta.toNat + digits e.bytesDownDelta.toNat) +
    (digits (roundHalfEven e.rateUpBps) + digits (roundHalfEven e.rateDownBps)) +
    digits (if e.firstSeenMs < e.lastSeenMs then (e.lastSeenMs - e.firstSeenMs).toNat else 0) +
    if e.state ≠ [] then e.state.length else 7

end CpeFlowEntry

theorem length_flowMembers (clock : Option WallClock) (routerId event : CStr) (e : CpeFlowEntry) :
    (object (flowMembers (copyStr 40 (isoNow clock)) routerId event e)).length
      = 393 + routerId.length + event.length + e.width := by
  have hts : (copyStr 40 (isoNow clock)).length = 24 := by
    rw [copyStr_of_length_lt (by rw [length_isoNow]; decide), length_isoNow]
  have hid : (if e.flowId ≠ [] then e.flowId else ascii "0").length = max e.flowId.length 1 := by
    cases e.flowId with
    | nil => rfl
    | cons b s => simp
  have hstate : (if e.state ≠ [] then e.state else ascii "UNKNOWN").length
      = if e.state ≠ [] then e.state.length else 7 := apply_ite List.length _ _ _
  have htype : (ascii "cpe_flow").length = 8 := rfl
  have hpath : (ascii "null").length = 4 := rfl
  rw [length_object (by simp [flowMembers])]
  simp only [flowMembers, List.map_cons, List.map_nil, List.sum_cons, List.sum_nil, length_quoted,
    hts, hid, hstate, htype, hpath, String.reduceToList, List.length_cons, List.length_nil,
    CpeFlowEntry.width, digits, fixed0]
  ring

/-- The length of the line of a record, in terms of what it is made of. -/
def flowLineWidth (routerId event : CStr) (e : CpeFlowEntry) : ℕ :=
  393 + routerId.length + event.length + e.width

/-- A record is formatted when its line is shorter than the buffer. -/
theorem cpeFlowFormatNdjson_iff (clock : Option WallClock) (routerId event : CStr)
    (e : CpeFlowEntry) :
    (∃ line, cpeFlowFormatNdjson clock routerId event e cpeNdjsonLineMax = some line) ↔
      flowLineWidth routerId event e < cpeNdjsonLineMax := by
  rw [cpeFlowFormatNdjson, if_neg (by decide), fitText, length_flowMembers, flowLineWidth]
  constructor
  · rintro ⟨line, hline⟩
    by_contra hlong
    rw [if_neg hlong] at hline
    exact absurd hline (Option.some_ne_none line).symm
  · exact fun h ↦ ⟨_, if_pos h⟩

namespace CpeAgent

variable {a : CpeAgent} {x : FlowInput} {i : FlowSlot}

/-- The teardown of the slot is reported: its line is formatted, it is the one line pushed, it is
counted, and the slot is released. -/
structure ReportsDestroy (a : CpeAgent) (x : FlowInput) (i : FlowSlot) : Prop where
  pushed : ∃ line,
    cpeFlowFormatNdjson x.clock a.cfg.routerId (ascii "destroy")
      (storeEvent (a.flow.table i) x.ev x.nowMs).destroyed cpeNdjsonLineMax = some line ∧
    (a.applyEvent x).1.spool = (a.spoolPushLine line).1.spool
  counted : (a.applyEvent x).1.flow.destroysEmitted = a.flow.destroysEmitted + 1
  released : ((a.applyEvent x).1.flow.table i).used = false

theorem warnNoAcct_destroysEmitted (a : CpeAgent) (ev : NfctEvent) :
    (a.warnNoAcct ev).flow.destroysEmitted = a.flow.destroysEmitted := by
  unfold warnNoAcct
  split <;> rfl

theorem emitDestroyLine_destroysEmitted (h : a.Spools) {clock : Option WallClock}
    {e : CpeFlowEntry} {line : CStr} (hline : a.flowLine clock "destroy" e = some line) :
    (a.emitDestroyLine clock e).flow.destroysEmitted = a.flow.destroysEmitted + 1 := by
  rw [emitDestroyLine, hline]
  dsimp only
  rw [if_pos (spoolPushLine_of_spools h line).1, spoolPushLine_flow]

theorem releaseSlot_destroysEmitted (a : CpeAgent) (i : FlowSlot) :
    (a.releaseSlot i).flow.destroysEmitted = a.flow.destroysEmitted := rfl

theorem setSlot_destroysEmitted (a : CpeAgent) (i : FlowSlot) (e : CpeFlowEntry) :
    (a.setSlot i e).flow.destroysEmitted = a.flow.destroysEmitted := rfl

theorem applyEvent_destroysEmitted (htarget : a.flow.target x.ev x.nowMs = some i)
    (hrel : a.flow.releases x.ev = true) (hspool : a.Spools) {line : CStr}
    (hline : a.flowLine x.clock "destroy" (storeEvent (a.flow.table i) x.ev x.nowMs).destroyed
      = some line) :
    (a.applyEvent x).1.flow.destroysEmitted = a.flow.destroysEmitted + 1 := by
  have hstore := a.retabled_stored i x
  rw [applyEvent_of_releases htarget hrel]
  have hsame : ((a.warnNoAcct x.ev).storeInSlot i x).spool = a.spool := a.warnNoAcct_spool x.ev
  have hcfg : ((a.warnNoAcct x.ev).storeInSlot i x).cfg = a.cfg := a.warnNoAcct_cfg x.ev
  have hcount : ((a.warnNoAcct x.ev).storeInSlot i x).flow.destroysEmitted
      = a.flow.destroysEmitted := a.warnNoAcct_destroysEmitted x.ev
  -- what counts is the table, the ring, the configuration and the counter
  generalize (a.warnNoAcct x.ev).storeInSlot i x = b at hstore hsame hcfg hcount
  have hrec : (b.setSlot i (b.flow.table i).destroyed).flow.table i
      = (storeEvent (a.flow.table i) x.ev x.nowMs).destroyed := by
    rw [setSlot_table_self, hstore.table_eq, Function.update_self]
  have hmarked : (b.setSlot i (b.flow.table i).destroyed).Spools := by
    rw [Spools]
    exact hsame ▸ hspool
  have hprint : (b.setSlot i (b.flow.table i).destroyed).flowLine x.clock "destroy"
      (storeEvent (a.flow.table i) x.ev x.nowMs).destroyed = some line := by
    rw [flowLine] at hline ⊢
    exact hcfg ▸ hline
  rw [teardown, hrec, releaseSlot_destroysEmitted,
    emitDestroyLine_destroysEmitted hmarked hprint, setSlot_destroysEmitted, hcount]

/-- A teardown is reported exactly when the line of its record is shorter than 768 bytes. -/
theorem reportsDestroy_iff (htarget : a.flow.target x.ev x.nowMs = some i)
    (hrel : a.flow.releases x.ev = true) (hspool : a.Spools) :
    a.ReportsDestroy x i ↔ flowLineWidth a.cfg.routerId (ascii "destroy")
      (storeEvent (a.flow.table i) x.ev x.nowMs).destroyed < cpeNdjsonLineMax := by
  rw [← cpeFlowFormatNdjson_iff x.clock]
  constructor
  · rintro ⟨⟨line, hline, -⟩, -, -⟩
    exact ⟨line, hline⟩
  · rintro ⟨line, hline⟩
    have hdestroy : a.destroyLine x = some line := by
      rw [destroyLine, CpeFlowState.destroyRecord, htarget]
      exact hline
    exact
      { pushed := ⟨line, hline, applyEvent_spool_of_releases hrel hdestroy⟩
        counted := applyEvent_destroysEmitted htarget hrel hspool hline
        released := by
          rw [CpeFlowState.applyEvent_slot htarget]
          exact CpeFlowState.settle_used_of_releases hrel _ _ }

/-- A record of any kind, and the teardown of any flow, fits its buffer exactly when its line is
shorter than 768 bytes. -/
theorem record_fits_iff (a : CpeAgent) (x : FlowInput) (i : FlowSlot)
    (htarget : a.flow.target x.ev x.nowMs = some i) (hrel : a.flow.releases x.ev = true)
    (hspool : a.Spools) :
    (∀ (clock : Option WallClock) (event : CStr) (e : CpeFlowEntry),
      (∃ line, cpeFlowFormatNdjson clock a.cfg.routerId event e cpeNdjsonLineMax = some line) ↔
        flowLineWidth a.cfg.routerId event e < cpeNdjsonLineMax) ∧
    (a.ReportsDestroy x i ↔ flowLineWidth a.cfg.routerId (ascii "destroy")
      (storeEvent (a.flow.table i) x.ev x.nowMs).destroyed < cpeNdjsonLineMax) :=
  ⟨fun clock event e ↦ cpeFlowFormatNdjson_iff clock a.cfg.routerId event e,
    reportsDestroy_iff htarget hrel hspool⟩

/-- The teardown of a flow of `eventOf`. -/
theorem record_fits_destroyed :
    oneSlotAgent.ReportsDestroy (eventOf .destroy 6 2000) 0 := by
  have htarget : oneSlotAgent.flow.target (eventOf .destroy 6 2000).ev 2000 = some 0 := by
    decide +kernel
  exact (record_fits_iff oneSlotAgent (eventOf .destroy 6 2000) 0 htarget (by decide)
    (by decide)).2.mpr (by decide +kernel)

/-- An event of a flow over IPv6, its addresses without a zero group. -/
def wideEvent (type : NfctEventType) (nowMs : UInt64) : FlowInput where
  ev := { NfctEvent.blank with
    type := type
    isDestroy := decide (type = .destroy)
    hasLan := true
    hasWan := true
    isIpv6 := true
    protocol := 132
    lanSrcIp6 := fun _ ↦ 0xfd
    lanDstIp6 := fun _ ↦ 0xfd
    wanSrcIp6 := fun _ ↦ 0xfd
    lanSrcPort := 40000
    lanDstPort := 40000
    wanSrcPort := 40000 }
  nowMs := nowMs
  clock := none

def wideDestroy : FlowInput :=
  { wideEvent .destroy 2000 with
    ev := { (wideEvent .destroy 2000).ev with
      hasCounters := true
      origBytes := 18446744073709551615
      replyBytes := 18446744073709551615
      origPackets := 18446744073709551615
      replyPackets := 18446744073709551615 } }

/-- An agent with a router id of 63 bytes that has seen the flow open. -/
def wideAgent : CpeAgent :=
  { oneSlotAgent with cfg := { oneSlotAgent.cfg with routerId := List.replicate 63 97 } }.feed
    [wideEvent .new 1999]

/-- The teardown is not reported: its line would have 824 bytes. -/
theorem not_reportsDestroy_wide :
    wideAgent.cfg.routerId.length ≤ 63 ∧ wideAgent.Spools ∧ wideAgent.flow.releases wideDestroy.ev ∧
      wideAgent.flow.target wideDestroy.ev wideDestroy.nowMs = some 0 ∧
      ¬ wideAgent.ReportsDestroy wideDestroy 0 := by
  have hspool : wideAgent.Spools := by decide +kernel
  have hrel : wideAgent.flow.releases wideDestroy.ev = true := by decide +kernel
  have htarget : wideAgent.flow.target wideDestroy.ev wideDestroy.nowMs = some 0 := by
    decide +kernel
  refine ⟨by decide +kernel, hspool, hrel, htarget, fun h ↦ ?_⟩
  have hwidth := (reportsDestroy_iff htarget hrel hspool).mp h
  revert hwidth
  decide +kernel

end CpeAgent

end NetForensics
