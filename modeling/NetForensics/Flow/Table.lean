import NetForensics.Flow.Entry
import NetForensics.Util.Scan

/-!
# The flow table

`cpe_flow_state_t`, the slot search, and the merge of an event into the slot that was found. The
search is one pass (`scan`) over the slots below `max_flows`; a merge into an occupied slot goes
through the same code whether the slot was found by its identity or picked as a victim.
-/

namespace NetForensics

/-- `CPE_FLOW_MAX` -/
abbrev cpeFlowMax : ℕ := 1024

/-- A slot of the table. -/
abbrev FlowSlot := Fin cpeFlowMax

/-- `cpe_flow_state_t`. A closed descriptor is `none`. -/
structure CpeFlowState where
  fd : Option ℕ
  dumpFd : Option ℕ
  enabled : Bool
  openOk : Bool
  joinUpdate : Bool
  emitDestroy : Bool
  emitNew : Bool
  emitNat : Bool
  pollIntervalMs : UInt32
  dumpIntervalMs : UInt32
  sampleEmitMs : UInt32
  sampleTopN : UInt32
  maxFlows : UInt32
  lastDumpMs : UInt64
  lastSampleMs : UInt64
  lastTickMs : UInt64
  eventsIn : UInt64
  destroysEmitted : UInt64
  samplesEmitted : UInt64
  dumps : UInt64
  warnedNoAcct : Bool
  openErr : CStr
  table : FlowSlot → CpeFlowEntry
  tableUsed : UInt32

/-- `cpe_flow_state_init` -/
def cpeFlowStateInit : CpeFlowState where
  fd := none
  dumpFd := none
  enabled := false
  openOk := false
  joinUpdate := true
  emitDestroy := true
  emitNew := false
  emitNat := false
  pollIntervalMs := 200
  dumpIntervalMs := 200
  sampleEmitMs := 2000
  sampleTopN := 32
  maxFlows := UInt32.ofNat cpeFlowMax
  lastDumpMs := 0
  lastSampleMs := 0
  lastTickMs := 0
  eventsIn := 0
  destroysEmitted := 0
  samplesEmitted := 0
  dumps := 0
  warnedNoAcct := false
  openErr := []
  table := fun _ ↦ CpeFlowEntry.zero
  tableUsed := 0

/-! ## The slot search -/

/-- The slots a search visits: `i < max_flows && i < CPE_FLOW_MAX`. -/
def scanned (maxFlows : UInt32) : List FlowSlot :=
  (List.finRange (min maxFlows.toNat cpeFlowMax)).map (Fin.castLE (Nat.min_le_right _ _))

theorem mem_scanned {maxFlows : UInt32} {i : FlowSlot} :
    i ∈ scanned maxFlows ↔ i.val < maxFlows.toNat := by
  rw [scanned, List.mem_map]
  constructor
  · rintro ⟨k, -, rfl⟩
    exact lt_of_lt_of_le k.isLt (Nat.min_le_left _ _)
  · exact fun hi ↦ ⟨⟨i.val, lt_min hi i.isLt⟩, List.mem_finRange _, rfl⟩

theorem pairwise_scanned (maxFlows : UInt32) : (scanned maxFlows).Pairwise (· < ·) :=
  (List.pairwise_lt_finRange _).map _ fun _ _ h ↦ h

/-- The test `find_slot` applies to an occupied slot: the same conntrack id, or the same protocol,
LAN and remote end. -/
def CpeFlowEntry.answers (e key : CpeFlowEntry) : Bool :=
  (key.hasCtId && e.hasCtId && e.ctId == key.ctId) ||
    (e.proto == key.proto && e.lanPort == key.lanPort && e.remotePort == key.remotePort &&
      e.lanIp == key.lanIp && e.remoteIp == key.remoteIp)

/-- `find_slot` -/
def findSlot (st : CpeFlowState) (key : CpeFlowEntry) : Option FlowSlot :=
  scan (fun i ↦ (st.table i).used) (fun i ↦ (st.table i).answers key)
    (fun i ↦ (st.table i).lastSeenMs) (scanned st.maxFlows) none (UInt64.ofNat (2 ^ 64 - 1)) none

/-! ## Merging an event into a slot -/

/-- `(double)delta * 8000.0 / (double)dt` -/
def rateBps (delta dt : UInt64) : ℚ :=
  double (double (double delta.toNat * 8000) / double dt.toNat)

/-- Up to 2^40 bytes in 2^53 milliseconds only the quotient is rounded. -/
theorem rateBps_eq {delta dt : UInt64} (hdelta : delta.toNat < 2 ^ 40) (hdt : dt.toNat < 2 ^ 53) :
    rateBps delta dt = double (delta.toNat * 8000 / dt.toNat) := by
  have hscaled : (delta.toNat : ℚ) * 8000 = (delta.toNat * 8000 : ℕ) := by
    push_cast
    rfl
  rw [rateBps, double_natCast (hdelta.trans (by norm_num)), double_natCast hdt, hscaled,
    double_natCast (by omega)]

/-- `update_rates` -/
def updateRates (e : CpeFlowEntry) (prevUp prevDown prevMs nowMs : UInt64) : CpeFlowEntry :=
  let dt := if prevMs < nowMs then nowMs - prevMs else 0
  let up := if prevUp ≤ e.bytesUp then e.bytesUp - prevUp else e.bytesUp
  let down := if prevDown ≤ e.bytesDown then e.bytesDown - prevDown else e.bytesDown
  { e with
    bytesUpDelta := up
    bytesDownDelta := down
    rateUpBps := if 0 < dt then rateBps up dt else e.rateUpBps
    rateDownBps := if 0 < dt then rateBps down dt else e.rateDownBps }

namespace CpeFlowEntry

/-- The times and the conntrack id of a slot that takes in a record. -/
def touch (slot tmp : CpeFlowEntry) (nowMs : UInt64) : CpeFlowEntry :=
  { slot with
    firstSeenMs := if slot.firstSeenMs = 0 then nowMs else slot.firstSeenMs
    lastSeenMs := nowMs
    ctId := if tmp.hasCtId then tmp.ctId else slot.ctId
    hasCtId := if tmp.hasCtId then true else slot.hasCtId }

/-- The block of `apply_event` that copies the addresses, ports and protocol. -/
def takeTuple (slot tmp : CpeFlowEntry) : CpeFlowEntry :=
  if tmp.lanIp ≠ [] then
    { slot with
      lanIp := tmp.lanIp
      lanPort := tmp.lanPort
      remoteIp := tmp.remoteIp
      remotePort := tmp.remotePort
      wanIp := tmp.wanIp
      wanPort := tmp.wanPort
      proto := tmp.proto
      ipVersion := tmp.ipVersion }
  else slot

/-- The block of `apply_event` that copies the counters. -/
def takeCounters (slot tmp : CpeFlowEntry) : CpeFlowEntry :=
  { slot with
    origPkts := tmp.origPkts
    origBytes := tmp.origBytes
    replyPkts := tmp.replyPkts
    replyBytes := tmp.replyBytes
    bytesUp := tmp.bytesUp
    bytesDown := tmp.bytesDown }

/-- `make_flow_id`, for a slot that has no identifier yet. -/
def ensureFlowId (slot : CpeFlowEntry) : CpeFlowEntry :=
  if slot.flowId = [] then { slot with flowId := makeFlowId slot } else slot

end CpeFlowEntry

/-- The branch of `apply_event` for an occupied slot. Which fields are copied and which are kept
does not depend on whether the slot was found by identity or picked for eviction. -/
def mergeSlot (slot tmp : CpeFlowEntry) (hasCounters : Bool) (nowMs : UInt64) : CpeFlowEntry :=
  let e := (slot.touch tmp nowMs).takeTuple tmp
  let e := if hasCounters then
      updateRates (e.takeCounters tmp) slot.bytesUp slot.bytesDown slot.lastSeenMs nowMs
    else e
  CpeFlowEntry.ensureFlowId { e with state := copyStr 24 tmp.state }

/-- What the slot holds once the event is stored, before a teardown releases it. -/
def storeEvent (slot : CpeFlowEntry) (ev : NfctEvent) (nowMs : UInt64) : CpeFlowEntry :=
  if slot.used then mergeSlot slot (entryFromEvent ev nowMs) ev.hasCounters nowMs
  else entryFromEvent ev nowMs

/-- The teardown record: what is printed on a `destroy` line. -/
def CpeFlowEntry.destroyed (slot : CpeFlowEntry) : CpeFlowEntry :=
  { slot with alive := false, state := copyStr 24 (ascii "DESTROY") }

/-- `slot->used = 0`; the record stays behind. -/
def CpeFlowEntry.released (slot : CpeFlowEntry) : CpeFlowEntry := { slot with used := false }

/-- Events without a tuple are ignored, unless they tear down a flow by its id. -/
def NfctEvent.ignored (ev : NfctEvent) : Bool := !ev.hasLan && !(ev.isDestroy && ev.hasId)

/-- Whether the slot of the event is released: a teardown, with teardown lines switched on. -/
def CpeFlowState.releases (st : CpeFlowState) (ev : NfctEvent) : Bool :=
  decide (ev.type = .destroy) && st.emitDestroy

def CpeFlowState.target (st : CpeFlowState) (ev : NfctEvent) (nowMs : UInt64) :
    Option FlowSlot :=
  if ev.ignored then none else findSlot st (entryFromEvent ev nowMs)

/-- What `apply_event` leaves in the slot it picked. -/
def CpeFlowState.settle (st : CpeFlowState) (slot : CpeFlowEntry) (ev : NfctEvent)
    (nowMs : UInt64) : CpeFlowEntry :=
  if st.releases ev then (storeEvent slot ev nowMs).destroyed.released
  else storeEvent slot ev nowMs

/-- The effect of `apply_event` on the table alone. -/
def CpeFlowState.tableStep (st : CpeFlowState) (ev : NfctEvent) (nowMs : UInt64) :
    FlowSlot → CpeFlowEntry :=
  match st.target ev nowMs with
  | none => st.table
  | some i => Function.update st.table i (st.settle (st.table i) ev nowMs)

/-! ## Fields of a new record -/

section EntryFromEvent

variable (ev : NfctEvent) (nowMs : UInt64)

theorem ipv4Str_eq (a : UInt32) : ipv4Str a 48 = inetNtop4 a := by
  have hfit : (inetNtop4 a).length < 48 := lt_of_le_of_lt (length_inetNtop4_le a) (by decide)
  rw [ipv4Str, fitText, if_pos hfit]
  rfl

theorem ipv6Str_eq (a : In6Addr) : ipv6Str a 48 = inetNtop6 a := by
  rw [ipv6Str, fitText, if_pos (length_inetNtop6_lt a)]
  rfl

@[simp] theorem entryFromEvent_used : (entryFromEvent ev nowMs).used = true := by
  unfold entryFromEvent
  dsimp only
  split <;> rfl

@[simp] theorem entryFromEvent_alive :
    (entryFromEvent ev nowMs).alive = decide (ev.type ≠ NfctEventType.destroy) := by
  unfold entryFromEvent
  dsimp only
  split <;> rfl

@[simp] theorem entryFromEvent_hasCtId : (entryFromEvent ev nowMs).hasCtId = ev.hasId := by
  unfold entryFromEvent
  dsimp only
  split <;> rfl

theorem entryFromEvent_ctId (h : ev.hasId = true) : (entryFromEvent ev nowMs).ctId = ev.id := by
  unfold entryFromEvent
  dsimp only
  rw [if_pos h]
  split <;> rfl

theorem entryFromEvent_lanIp : (entryFromEvent ev nowMs).lanIp
    = if ev.isIpv6 then inetNtop6 ev.lanSrcIp6 else inetNtop4 ev.lanSrcIp := by
  unfold entryFromEvent
  dsimp only
  rw [ipv4Str_eq, ipv6Str_eq]
  split <;> rfl

/-- The address of the LAN side is printed for every event, with or without a tuple. -/
theorem entryFromEvent_lanIp_ne : (entryFromEvent ev nowMs).lanIp ≠ [] := by
  rw [entryFromEvent_lanIp]
  split
  · exact inetNtop6_ne_nil _
  · exact inetNtop4_ne_nil _

end EntryFromEvent

/-! ## Fields of a merged record -/

/-- Where the fields of a merged record come from. The packet counters, rates, times and state are
left out. -/
structure Merged (slot tmp : CpeFlowEntry) (hasCounters : Bool) (r : CpeFlowEntry) : Prop where
  used_eq : r.used = slot.used
  alive_eq : r.alive = slot.alive
  hasCtId_eq : r.hasCtId = if tmp.hasCtId then true else slot.hasCtId
  ctId_eq : r.ctId = if tmp.hasCtId then tmp.ctId else slot.ctId
  tuple_eq : r.tuple = tmp.tuple
  ipVersion_eq : r.ipVersion = tmp.ipVersion
  wanIp_eq : r.wanIp = tmp.wanIp
  wanPort_eq : r.wanPort = tmp.wanPort
  bytes_eq : r.bytes = if hasCounters then tmp.bytes else slot.bytes
  flowId_eq : slot.flowId ≠ [] → r.flowId = slot.flowId

theorem CpeFlowEntry.ensureFlowId_eq (e : CpeFlowEntry) :
    ∃ flowId, e.ensureFlowId = { e with flowId := flowId } ∧
      (e.flowId ≠ [] → flowId = e.flowId) := by
  unfold ensureFlowId
  split
  · rename_i h
    exact ⟨_, rfl, fun hne ↦ absurd h hne⟩
  · exact ⟨e.flowId, rfl, fun _ ↦ rfl⟩

theorem merged_mergeSlot (slot : CpeFlowEntry) {tmp : CpeFlowEntry} (h : tmp.lanIp ≠ [])
    (hasCounters : Bool) (nowMs : UInt64) :
    Merged slot tmp hasCounters (mergeSlot slot tmp hasCounters nowMs) := by
  unfold mergeSlot CpeFlowEntry.takeTuple
  rw [if_pos h]
  dsimp only
  cases hasCounters with
  | false =>
    obtain ⟨flowId, hid, hkeep⟩ := CpeFlowEntry.ensureFlowId_eq _
    rw [if_neg Bool.false_ne_true, hid]
    exact ⟨rfl, rfl, rfl, rfl, rfl, rfl, rfl, rfl, rfl, hkeep⟩
  | true =>
    obtain ⟨flowId, hid, hkeep⟩ := CpeFlowEntry.ensureFlowId_eq _
    rw [if_pos rfl, hid]
    exact ⟨rfl, rfl, rfl, rfl, rfl, rfl, rfl, rfl, rfl, hkeep⟩

theorem merged_storeEvent {slot : CpeFlowEntry} (h : slot.used = true) (ev : NfctEvent)
    (nowMs : UInt64) :
    Merged slot (entryFromEvent ev nowMs) ev.hasCounters (storeEvent slot ev nowMs) := by
  rw [storeEvent, if_pos h]
  exact merged_mergeSlot slot (entryFromEvent_lanIp_ne ev nowMs) ev.hasCounters nowMs

theorem storeEvent_of_unused {slot : CpeFlowEntry} (h : slot.used = false) (ev : NfctEvent)
    (nowMs : UInt64) : storeEvent slot ev nowMs = entryFromEvent ev nowMs := by
  rw [storeEvent, h]
  rfl

@[simp] theorem storeEvent_used (slot : CpeFlowEntry) (ev : NfctEvent) (nowMs : UInt64) :
    (storeEvent slot ev nowMs).used = true := by
  cases h : slot.used with
  | false => rw [storeEvent_of_unused h, entryFromEvent_used]
  | true => rw [(merged_storeEvent h ev nowMs).used_eq, h]

/-- Free or not, the slot now carries the tuple printed for the event. -/
theorem storeEvent_tuple (slot : CpeFlowEntry) (ev : NfctEvent) (nowMs : UInt64) :
    (storeEvent slot ev nowMs).tuple = (entryFromEvent ev nowMs).tuple := by
  cases h : slot.used with
  | false => rw [storeEvent_of_unused h]
  | true => exact (merged_storeEvent h ev nowMs).tuple_eq

theorem storeEvent_ctId (slot : CpeFlowEntry) {ev : NfctEvent} (hid : ev.hasId = true)
    (nowMs : UInt64) :
    (storeEvent slot ev nowMs).hasCtId = true ∧ (storeEvent slot ev nowMs).ctId = ev.id := by
  have hkey : (entryFromEvent ev nowMs).hasCtId = true := by rw [entryFromEvent_hasCtId, hid]
  cases h : slot.used with
  | false =>
    rw [storeEvent_of_unused h]
    exact ⟨hkey, entryFromEvent_ctId ev nowMs hid⟩
  | true =>
    have hm := merged_storeEvent h ev nowMs
    rw [hm.hasCtId_eq, hm.ctId_eq, if_pos hkey, if_pos hkey]
    exact ⟨rfl, entryFromEvent_ctId ev nowMs hid⟩

/-! ## Identity -/

/-- `find_slot`'s test in terms of the event: its conntrack id, or the tuple printed for it. -/
theorem answers_entryFromEvent {e : CpeFlowEntry} {ev : NfctEvent} {nowMs : UInt64} :
    e.answers (entryFromEvent ev nowMs) = true ↔
      (ev.hasId = true ∧ e.hasCtId = true ∧ e.ctId = ev.id) ∨
        e.tuple = (entryFromEvent ev nowMs).tuple := by
  have hid : (((entryFromEvent ev nowMs).hasCtId && e.hasCtId &&
      e.ctId == (entryFromEvent ev nowMs).ctId) = true) ↔
      (ev.hasId = true ∧ e.hasCtId = true ∧ e.ctId = ev.id) := by
    rw [entryFromEvent_hasCtId]
    cases h : ev.hasId with
    | false => simp
    | true => simp [entryFromEvent_ctId ev nowMs h]
  rw [CpeFlowEntry.answers, Bool.or_eq_true, hid]
  refine or_congr Iff.rfl ?_
  simp only [Bool.and_eq_true, beq_iff_eq, CpeFlowEntry.tuple, Prod.mk.injEq]
  tauto

end NetForensics
