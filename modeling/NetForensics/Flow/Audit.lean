import NetForensics.Flow.History
import NetForensics.Flow.Samples

/-!
# Bytes reported in samples

A sample line reports the bytes a flow has moved since the counters before, so the lines of a flow
should not add up to more than its counters. The deltas are computed when an event brings counters
and are left in place when a line has reported them: a second round before the next event reports
the same bytes again.

`Meter` is one direction of one flow in the abstract: a counter that is read and a delta that is
printed. `Audited` runs the agent with the sums next to each slot.
-/

namespace NetForensics

/-- The delta of `update_rates`: a counter that went back starts again from zero. -/
def counterDelta (prev new : UInt64) : UInt64 := if prev ≤ new then new - prev else new

/-- One direction of a flow. -/
structure Meter where
  /-- what has been reported so far -/
  reported : ℕ
  bytes : UInt64
  delta : UInt64
  /-- the counter has been read since the last report -/
  fresh : Bool

namespace Meter

variable {m : Meter}

def read (m : Meter) (new : UInt64) : Meter := ⟨m.reported, new, counterDelta m.bytes new, true⟩

def report (m : Meter) : Meter := ⟨m.reported + m.delta.toNat, m.bytes, m.delta, false⟩

/-- The reports do not exceed the counter, and a fresh delta still has room below it. -/
structure Sound (m : Meter) : Prop where
  le : m.reported ≤ m.bytes.toNat
  room : m.fresh = true → m.reported + m.delta.toNat ≤ m.bytes.toNat

theorem sound_zero (bytes delta : UInt64) : Sound ⟨0, bytes, delta, false⟩ :=
  ⟨Nat.zero_le _, fun h ↦ absurd h Bool.false_ne_true⟩

theorem counterDelta_le (prev new : UInt64) : (counterDelta prev new).toNat ≤ new.toNat := by
  rw [counterDelta]
  split
  · next h =>
    rw [UInt64.toNat_sub_of_le _ _ h]
    exact Nat.sub_le _ _
  · exact le_rfl

/-- A counter that does not go back, or of which nothing has been reported, may be read. -/
theorem Sound.read (h : m.Sound) {new : UInt64} (hnew : m.reported = 0 ∨ m.bytes ≤ new) :
    (m.read new).Sound := by
  have hle := h.le
  have hroom : m.reported + (counterDelta m.bytes new).toNat ≤ new.toNat := by
    rcases hnew with hzero | hgrow
    · have hdelta := counterDelta_le m.bytes new
      omega
    · have hdelta : (counterDelta m.bytes new).toNat = new.toNat - m.bytes.toNat := by
        rw [counterDelta, if_pos hgrow, UInt64.toNat_sub_of_le _ _ hgrow]
      have hbytes := UInt64.le_iff_toNat_le.mp hgrow
      omega
  exact ⟨(Nat.le_add_right _ _).trans hroom, fun _ ↦ hroom⟩

/-- A fresh delta may be reported, and an empty one at any time. -/
theorem Sound.report (h : m.Sound) (hfresh : m.fresh = true ∨ m.delta = 0) : m.report.Sound := by
  refine ⟨?_, fun hf ↦ absurd hf Bool.false_ne_true⟩
  rcases hfresh with hfresh | hzero
  · exact h.room hfresh
  · have hle := h.le
    rw [Meter.report, hzero]
    exact hle

end Meter

/-! ## The sums of a slot -/

/-- What the sample lines have reported of the flow in a slot. -/
structure Reported where
  up : ℕ
  down : ℕ
  /-- the byte counters of its last event that brought any -/
  counters : Option (UInt64 × UInt64)
  /-- counters have come in since its last line -/
  fresh : Bool

namespace Reported

def entered : Reported := ⟨0, 0, none, false⟩

def take (r : Reported) (ev : NfctEvent) : Reported :=
  if ev.hasCounters then
    { r with counters := some (ev.origBytes, ev.replyBytes), fresh := true }
  else r

def report (r : Reported) (e : CpeFlowEntry) : Reported :=
  { r with
    up := r.up + e.bytesUpDelta.toNat
    down := r.down + e.bytesDownDelta.toNat
    fresh := false }

def upMeter (r : Reported) (e : CpeFlowEntry) : Meter := ⟨r.up, e.bytesUp, e.bytesUpDelta, r.fresh⟩

def downMeter (r : Reported) (e : CpeFlowEntry) : Meter :=
  ⟨r.down, e.bytesDown, e.bytesDownDelta, r.fresh⟩

/-- What holds of a slot: both directions are sound, nothing has been reported of a flow that has
brought no counters, and the counters are those of the last event that did. -/
structure Fits (r : Reported) (e : CpeFlowEntry) : Prop where
  up : (r.upMeter e).Sound
  down : (r.downMeter e).Sound
  uncounted : r.counters = none → r.up = 0 ∧ r.down = 0
  fresh : r.fresh = true → r.counters ≠ none
  counted : ∀ c ∈ r.counters, e.bytesUp = c.1 ∧ e.bytesDown = c.2

theorem fits_entered (e : CpeFlowEntry) : entered.Fits e where
  up := Meter.sound_zero _ _
  down := Meter.sound_zero _ _
  uncounted _ := ⟨rfl, rfl⟩
  fresh h := absurd h Bool.false_ne_true
  counted _ hc := absurd hc (Option.not_mem_none _)

end Reported

theorem mergeSlot_deltas (slot : CpeFlowEntry) {tmp : CpeFlowEntry} (h : tmp.lanIp ≠ [])
    (hasCounters : Bool) (nowMs : UInt64) :
    let e := mergeSlot slot tmp hasCounters nowMs
    (e.bytesUp, e.bytesUpDelta) = (if hasCounters then
        (tmp.bytesUp, counterDelta slot.bytesUp tmp.bytesUp)
      else (slot.bytesUp, slot.bytesUpDelta)) ∧
    (e.bytesDown, e.bytesDownDelta) = if hasCounters then
        (tmp.bytesDown, counterDelta slot.bytesDown tmp.bytesDown)
      else (slot.bytesDown, slot.bytesDownDelta) := by
  unfold mergeSlot CpeFlowEntry.takeTuple
  rw [if_pos h]
  dsimp only
  cases hasCounters with
  | false =>
    obtain ⟨flowId, hid, -⟩ := CpeFlowEntry.ensureFlowId_eq _
    rw [if_neg Bool.false_ne_true, hid]
    exact ⟨rfl, rfl⟩
  | true =>
    obtain ⟨flowId, hid, -⟩ := CpeFlowEntry.ensureFlowId_eq _
    rw [if_pos rfl, hid]
    exact ⟨rfl, rfl⟩

theorem entryFromEvent_counters (ev : NfctEvent) (nowMs : UInt64) :
    let e := entryFromEvent ev nowMs
    e.bytesUp = (if ev.hasCounters then ev.origBytes else 0) ∧
      e.bytesDown = (if ev.hasCounters then ev.replyBytes else 0) ∧
      e.bytesUpDelta = 0 ∧ e.bytesDownDelta = 0 := by
  unfold entryFromEvent
  dsimp only
  split <;> exact ⟨rfl, rfl, rfl, rfl⟩

namespace Reported

variable {r : Reported} {e : CpeFlowEntry}

/-- An event of the flow in the slot, or of one that evicts it: the counters do not go back, or
nothing has been reported. -/
theorem Fits.merge (h : r.Fits e) {ev : NfctEvent} {nowMs : UInt64} (hused : e.used = true)
    (hgrow : ev.hasCounters = true →
      ∀ c ∈ r.counters, c.1 ≤ ev.origBytes ∧ c.2 ≤ ev.replyBytes) :
    (r.take ev).Fits (storeEvent e ev nowMs) := by
  obtain ⟨hup, hdown⟩ := mergeSlot_deltas e (entryFromEvent_lanIp_ne ev nowMs) ev.hasCounters nowMs
  obtain ⟨hbytesUp, hbytesDown, -, -⟩ := entryFromEvent_counters ev nowMs
  rw [storeEvent, if_pos hused]
  generalize mergeSlot e (entryFromEvent ev nowMs) ev.hasCounters nowMs = e' at hup hdown ⊢
  cases hcount : ev.hasCounters with
  | false =>
    rw [hcount, if_neg Bool.false_ne_true, Prod.mk.injEq] at hup hdown
    rw [take, hcount, if_neg Bool.false_ne_true]
    constructor
    · rw [upMeter, hup.1, hup.2]
      exact h.up
    · rw [downMeter, hdown.1, hdown.2]
      exact h.down
    · exact h.uncounted
    · exact h.fresh
    · rw [hup.1, hdown.1]
      exact h.counted
  | true =>
    rw [hcount, if_pos rfl] at hbytesUp hbytesDown
    rw [hcount, if_pos rfl, Prod.mk.injEq] at hup hdown
    rw [hbytesUp] at hup
    rw [hbytesDown] at hdown
    -- the counters come in on top of those before, or nothing has been reported of them
    have hback : (r.up = 0 ∨ e.bytesUp ≤ ev.origBytes) ∧
        (r.down = 0 ∨ e.bytesDown ≤ ev.replyBytes) := by
      cases hc : r.counters with
      | none => exact ⟨Or.inl (h.uncounted hc).1, Or.inl (h.uncounted hc).2⟩
      | some c =>
        obtain ⟨hle, hle'⟩ := hgrow hcount c hc
        rw [(h.counted c hc).1, (h.counted c hc).2]
        exact ⟨Or.inr hle, Or.inr hle'⟩
    rw [take, hcount, if_pos rfl]
    constructor
    · rw [upMeter, hup.1, hup.2]
      exact h.up.read hback.1
    · rw [downMeter, hdown.1, hdown.2]
      exact h.down.read hback.2
    · exact fun hnone ↦ absurd hnone (Option.some_ne_none _)
    · exact fun _ ↦ Option.some_ne_none _
    · rintro c hc
      cases hc
      exact ⟨hup.1, hdown.1⟩

theorem fits_fill (hfree : e.used = false) (ev : NfctEvent) (nowMs : UInt64) :
    (entered.take ev).Fits (storeEvent e ev nowMs) := by
  obtain ⟨hup, hdown, hupDelta, hdownDelta⟩ := entryFromEvent_counters ev nowMs
  rw [storeEvent_of_unused hfree]
  generalize entryFromEvent ev nowMs = e' at hup hdown hupDelta hdownDelta ⊢
  -- a record that is copied into a free slot has empty deltas
  have hzero : ∀ (bytes : UInt64) (fresh : Bool), Meter.Sound ⟨0, bytes, 0, fresh⟩ :=
    fun bytes fresh ↦ ⟨Nat.zero_le _, fun _ ↦ Nat.zero_le _⟩
  have hmeters : ∀ fresh : Bool, Meter.Sound ⟨0, e'.bytesUp, e'.bytesUpDelta, fresh⟩ ∧
      Meter.Sound ⟨0, e'.bytesDown, e'.bytesDownDelta, fresh⟩ := by
    intro fresh
    rw [hupDelta, hdownDelta]
    exact ⟨hzero _ _, hzero _ _⟩
  rw [take]
  cases hcount : ev.hasCounters with
  | false =>
    rw [if_neg Bool.false_ne_true]
    exact fits_entered e'
  | true =>
    rw [hcount, if_pos rfl] at hup hdown
    rw [if_pos rfl]
    refine ⟨(hmeters true).1, (hmeters true).2, fun _ ↦ ⟨rfl, rfl⟩,
      fun _ ↦ Option.some_ne_none _, ?_⟩
    rintro c hc
    cases hc
    exact ⟨hup, hdown⟩

theorem Fits.settle {ev : NfctEvent} {nowMs : UInt64} (h : r.Fits (storeEvent e ev nowMs))
    (st : CpeFlowState) : r.Fits (st.settle e ev nowMs) := by
  rw [CpeFlowState.settle]
  split
  · exact ⟨h.up, h.down, h.uncounted, h.fresh, h.counted⟩
  · exact h

theorem Fits.report (h : r.Fits e)
    (hfresh : r.fresh = true ∨ e.bytesUpDelta = 0 ∧ e.bytesDownDelta = 0) :
    (r.report e).Fits e where
  up := h.up.report (hfresh.imp_right And.left)
  down := h.down.report (hfresh.imp_right And.right)
  uncounted hnone := by
    obtain hf | ⟨hup, hdown⟩ := hfresh
    · exact absurd hnone (h.fresh hf)
    · rw [Reported.report, hup, hdown]
      exact h.uncounted hnone
  fresh hf := absurd hf Bool.false_ne_true
  counted := h.counted

end Reported

/-! ## Runs -/

/-- The calls of a run. -/
inductive SampleOp where
  | event (x : FlowInput)
  | sample (now : UInt64) (clock : FlowSlot → Option WallClock)

/-- An agent, and for every slot what has been reported of the flow in it. -/
structure Audited where
  agent : CpeAgent
  reported : FlowSlot → Reported

def CpeFlowEntry.holds (slot : CpeFlowEntry) (x : FlowInput) : Bool :=
  slot.used && slot.answers (entryFromEvent x.ev x.nowMs)

namespace Audited

/-- One turn of the loop that prints the samples: a line that is pushed has reported the slot. -/
def sampleSlot (clock : FlowSlot → Option WallClock) (t : Audited) (i : FlowSlot) : Audited where
  agent := (t.agent.emitSample (clock i) i).1
  reported :=
    if (t.agent.emitSample (clock i) i).2 = 1 then
      Function.update t.reported i ((t.reported i).report (t.agent.flow.table i))
    else t.reported

def step (t : Audited) : SampleOp → Audited
  | .event x =>
    { agent := (t.agent.applyEvent x).1
      reported := match t.agent.flow.target x.ev x.nowMs with
        | none => t.reported
        | some i => Function.update t.reported i
            ((if (t.agent.flow.table i).holds x then t.reported i else .entered).take x.ev) }
  | .sample now clock =>
    if t.agent.flow.sampleDue now then
      t.agent.flow.sampleSlots.foldl (sampleSlot clock)
        { t with agent := { t.agent with flow := { t.agent.flow with lastSampleMs := now } } }
    else t

theorem step_agent (t : Audited) (op : SampleOp) : (t.step op).agent = match op with
    | .event x => (t.agent.applyEvent x).1
    | .sample now clock => (t.agent.emitTopSamples now clock).1 := by
  cases op with
  | event x => rfl
  | sample now clock =>
    have hfold : ∀ (is : List FlowSlot) (t : Audited) (n : ℤ),
        (is.foldl (sampleSlot clock) t).agent = (is.foldl (fun res i ↦
          ((res.1.emitSample (clock i) i).1, res.2 + (res.1.emitSample (clock i) i).2))
          (t.agent, n)).1 := by
      intro is
      induction is with
      | nil => exact fun _ _ ↦ rfl
      | cons i is ih =>
        intro t n
        rw [List.foldl_cons, List.foldl_cons, ih (t.sampleSlot clock i)
          (n + (t.agent.emitSample (clock i) i).2)]
        rfl
    dsimp only
    rw [step, CpeAgent.emitTopSamples]
    split
    · exact hfold _ _ _
    · rfl

/-- No byte has been reported twice: the lines of a flow do not add up to more than its counters. -/
def NotTwice (t : Audited) : Prop :=
  ∀ i, (t.reported i).up ≤ (t.agent.flow.table i).bytesUp.toNat ∧
    (t.reported i).down ≤ (t.agent.flow.table i).bytesDown.toNat

def Grows (t : Audited) : SampleOp → Prop
  | .event x => ∀ i ∈ t.agent.flow.target x.ev x.nowMs, (t.agent.flow.table i).holds x = true →
      x.ev.hasCounters = true →
        ∀ c ∈ (t.reported i).counters, c.1 ≤ x.ev.origBytes ∧ c.2 ≤ x.ev.replyBytes
  | .sample _ _ => True

instance (t : Audited) : (op : SampleOp) → Decidable (t.Grows op)
  | .event x =>
    -- by going through the members, not through all values
    have (i : FlowSlot) : Decidable (∀ c ∈ (t.reported i).counters,
        c.1 ≤ x.ev.origBytes ∧ c.2 ≤ x.ev.replyBytes) := Option.decidableForallMem _
    show Decidable (∀ i ∈ t.agent.flow.target x.ev x.nowMs, _ → _ → _) from
      Option.decidableForallMem _
  | .sample _ _ => inferInstanceAs (Decidable True)

/-- A round prints no delta that has been printed before: counters have come in for each of its
flows since its last line, unless both deltas are empty. -/
def PrintsFresh (t : Audited) : SampleOp → Prop
  | .event _ => True
  | .sample now _ => t.agent.flow.sampleDue now = true → ∀ i ∈ t.agent.flow.sampleSlots,
      (t.reported i).fresh = true ∨ (t.agent.flow.table i).bytesUpDelta = 0 ∧
        (t.agent.flow.table i).bytesDownDelta = 0

instance (t : Audited) : (op : SampleOp) → Decidable (t.PrintsFresh op)
  | .event _ => inferInstanceAs (Decidable True)
  | .sample now _ =>
    have : Decidable (∀ i ∈ t.agent.flow.sampleSlots, (t.reported i).fresh = true ∨
        (t.agent.flow.table i).bytesUpDelta = 0 ∧ (t.agent.flow.table i).bytesDownDelta = 0) :=
      List.decidableBAll _ _
    inferInstanceAs (Decidable (t.agent.flow.sampleDue now = true → _))

def AllFit (t : Audited) : Prop := ∀ i, (t.reported i).Fits (t.agent.flow.table i)

theorem AllFit.notTwice {t : Audited} (h : t.AllFit) : t.NotTwice :=
  fun i ↦ ⟨(h i).up.le, (h i).down.le⟩

theorem AllFit.event {t : Audited} (h : t.AllFit) {x : FlowInput} (hgrow : t.Grows (.event x)) :
    (t.step (.event x)).AllFit := by
  intro j
  rw [step]
  dsimp only
  cases htarget : t.agent.flow.target x.ev x.nowMs with
  | none =>
    rw [CpeFlowState.applyEvent_slot_of_ne (by simp [htarget])]
    exact h j
  | some i =>
    dsimp only
    by_cases hj : j = i
    · subst hj
      have hstore : ((if (t.agent.flow.table j).holds x then t.reported j else .entered).take
          x.ev).Fits (storeEvent (t.agent.flow.table j) x.ev x.nowMs) := by
        cases hused : (t.agent.flow.table j).used with
        | false =>
          rw [CpeFlowEntry.holds, hused, Bool.false_and, if_neg Bool.false_ne_true]
          exact Reported.fits_fill hused x.ev x.nowMs
        | true =>
          cases hown : (t.agent.flow.table j).holds x with
          | true => exact (h j).merge hused (hgrow j htarget hown)
          | false =>
            exact (Reported.fits_entered _).merge hused
              fun _ c hc ↦ absurd hc (Option.not_mem_none c)
      rw [Function.update_self, CpeFlowState.applyEvent_slot htarget]
      exact hstore.settle t.agent.flow
    · have hne : t.agent.flow.target x.ev x.nowMs ≠ some j := by
        rw [htarget]
        exact fun h ↦ hj (Option.some.inj h).symm
      rw [Function.update_of_ne hj, CpeFlowState.applyEvent_slot_of_ne hne]
      exact h j

theorem emitSample_table (a : CpeAgent) (clock : Option WallClock) (i : FlowSlot) :
    (a.emitSample clock i).1.flow.table = a.flow.table := by
  by_cases h : a.Spools
  · rw [CpeAgent.emitSample_of_spools h]
    rfl
  · rw [CpeAgent.emitSample_of_not_spools h]

theorem AllFit.foldl_sampleSlot {t : Audited} (h : t.AllFit)
    (clock : FlowSlot → Option WallClock) {is : List FlowSlot} (hnodup : is.Nodup)
    (hfresh : ∀ i ∈ is, (t.reported i).fresh = true ∨
      (t.agent.flow.table i).bytesUpDelta = 0 ∧ (t.agent.flow.table i).bytesDownDelta = 0) :
    (is.foldl (sampleSlot clock) t).AllFit := by
  induction is generalizing t with
  | nil => exact h
  | cons i is ih =>
    obtain ⟨hnot, hrest⟩ := List.nodup_cons.mp hnodup
    have htable : (t.sampleSlot clock i).agent.flow.table = t.agent.flow.table :=
      emitSample_table _ _ _
    have hother : ∀ j, j ≠ i → (t.sampleSlot clock i).reported j = t.reported j := by
      intro j hj
      rw [sampleSlot]
      dsimp only
      split
      · exact Function.update_of_ne hj _ _
      · rfl
    refine ih (fun j ↦ ?_) hrest fun j hj ↦ ?_
    · rw [htable]
      by_cases hj : j = i
      · subst hj
        rw [sampleSlot]
        dsimp only
        split
        · rw [Function.update_self]
          exact (h j).report (hfresh j List.mem_cons_self)
        · exact h j
      · rw [hother j hj]
        exact h j
    · rw [htable, hother j fun hji ↦ hnot (hji ▸ hj)]
      exact hfresh j (List.mem_cons_of_mem i hj)

theorem AllFit.step {t : Audited} (h : t.AllFit) {op : SampleOp} (hgrow : t.Grows op)
    (hfresh : t.PrintsFresh op) : (t.step op).AllFit := by
  cases op with
  | event x => exact h.event hgrow
  | sample now clock =>
    rw [Audited.step]
    split
    · next hdue =>
      have hround : AllFit
          { t with agent.flow.lastSampleMs := now } := h
      exact hround.foldl_sampleSlot clock (CpeFlowState.nodup_selectedSlots.filter _) (hfresh hdue)
    · exact h

/-- The agent at the start of a run, with nothing reported. -/
def start (a : CpeAgent) : Audited := ⟨a, fun _ ↦ .entered⟩

/-- In a run in which no round prints a delta again, no byte is reported twice. -/
theorem notTwice_run (a : CpeAgent) (ops : List SampleOp)
    (hgrow : AllSteps step Grows (start a) ops)
    (hfresh : AllSteps step PrintsFresh (start a) ops) : AllStates step NotTwice (start a) ops := by
  exact allStates_of_allSteps (Q := AllFit) (fun _ h ↦ h.notTwice)
    (fun _ _ h hc ↦ h.step hc.1 hc.2) (fun i ↦ Reported.fits_entered _) (hgrow.and hfresh)

def countedEvent (orig : UInt64) (nowMs : UInt64) : SampleOp :=
  .event { eventOf .update 6 nowMs with
    ev := { (eventOf .update 6 nowMs).ev with hasCounters := true, origBytes := orig } }

def roundAt (now : UInt64) : SampleOp := .sample now fun _ ↦ none

/-- The flow moves 1500 bytes before each of two rounds. -/
theorem notTwice_run_moving :
    AllStates step NotTwice (start oneSlotAgent)
      [countedEvent 0 1000, countedEvent 1500 2000, roundAt 5000, countedEvent 3000 6000,
        roundAt 9000] := by
  exact notTwice_run oneSlotAgent _ (by decide +kernel) (by decide +kernel)

/-- The flow moves 1500 bytes, and two rounds report them: 3000 bytes in all. -/
theorem not_notTwice_repeated :
    AllSteps step Grows (start oneSlotAgent)
        [countedEvent 0 1000, countedEvent 1500 2000, roundAt 5000, roundAt 9000] ∧
      ¬ AllStates step NotTwice (start oneSlotAgent)
        [countedEvent 0 1000, countedEvent 1500 2000, roundAt 5000, roundAt 9000] := by
  refine ⟨by decide +kernel, fun h ↦ ?_⟩
  have hlast := (h.2.2.2.2 0).1
  revert hlast
  decide +kernel

end Audited

end NetForensics
