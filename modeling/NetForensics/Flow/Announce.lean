import NetForensics.Flow.Audit
import NetForensics.Flow.Width
import NetForensics.Spool.Accounting

/-!
# Announcements

With `emit_new` on, `apply_event` prints a `new` line. It goes by the type of the event and does not
ask whether the flow is already in the table, so a flow is announced as often as a NEW event is
stored for it. `Announcing` counts both: the lines the spool has taken since the flow entered its
slot, and the NEW events whose record fits a line.
-/

namespace NetForensics

namespace CpeAgent

variable {a : CpeAgent} {x : FlowInput} {i : FlowSlot}

/-- The `new` line for an event that is stored in slot `i`. -/
def newLine (a : CpeAgent) (x : FlowInput) (i : FlowSlot) : Option CStr :=
  if x.ev.type = .new ∧ a.flow.emitNew = true then
    a.flowLine x.clock "new" (storeEvent (a.flow.table i) x.ev x.nowMs)
  else none

/-- The lines the spool has taken: those in the ring and those that were dropped from it. -/
def spooled (a : CpeAgent) : ℕ := a.spoolDepth + a.spoolDrops

/-- The event calls for an announcement, and there is a line for it. -/
def Announces (a : CpeAgent) (x : FlowInput) (i : FlowSlot) : Prop :=
  x.ev.type = .new ∧ a.flow.emitNew = true ∧ flowLineWidth a.cfg.routerId (ascii "new")
    (storeEvent (a.flow.table i) x.ev x.nowMs) < cpeNdjsonLineMax

instance : Decidable (a.Announces x i) := inferInstanceAs (Decidable (_ ∧ _))

theorem announces_iff : a.Announces x i ↔ ∃ line, a.newLine x i = some line := by
  rw [Announces, ← cpeFlowFormatNdjson_iff x.clock, newLine]
  by_cases h : x.ev.type = .new ∧ a.flow.emitNew = true
  · rw [if_pos h, ← and_assoc, and_iff_right h]
    rfl
  · rw [if_neg h]
    exact iff_of_false (fun hboth ↦ h ⟨hboth.1, hboth.2.1⟩) (by simp)

/-- An event that releases no slot pushes a `new` line, or nothing. -/
theorem applyEvent_spool_of_not_releases (htarget : a.flow.target x.ev x.nowMs = some i)
    (hrel : a.flow.releases x.ev = false) :
    (a.applyEvent x).1.spool = match a.newLine x i with
      | none => a.spool
      | some line => (a.spoolPushLine line).1.spool := by
  have hstore := a.retabled_stored i x
  have hspool : ((a.warnNoAcct x.ev).storeInSlot i x).spool = a.spool := a.warnNoAcct_spool x.ev
  have hcfg : ((a.warnNoAcct x.ev).storeInSlot i x).cfg = a.cfg := a.warnNoAcct_cfg x.ev
  rw [applyEvent_of_target htarget, if_neg (by simpa [CpeFlowState.releases] using hrel), newLine]
  -- from here on only the table, the ring and the configuration of the agent matter
  generalize (a.warnNoAcct x.ev).storeInSlot i x = b at hstore hspool hcfg
  by_cases hnew : x.ev.type = .new ∧ a.flow.emitNew = true
  · have hline : b.flowLine x.clock "new" (b.flow.table i)
        = a.flowLine x.clock "new" (storeEvent (a.flow.table i) x.ev x.nowMs) := by
      rw [flowLine, flowLine, hcfg, hstore.table_eq, Function.update_self]
    rw [if_pos hnew, if_pos hnew, emitNewLine, hline]
    cases a.flowLine x.clock "new" (storeEvent (a.flow.table i) x.ev x.nowMs) with
    | none => exact hspool
    | some line => exact spoolPushLine_spool_congr hspool line
  · rw [if_neg hnew, if_neg hnew]
    exact hspool

theorem spooled_of_push (h : a.Spools) {line : CStr} {b : CpeAgent}
    (hspool : b.spool = (a.spoolPushLine line).1.spool) : b.spooled = a.spooled + 1 := by
  have hcount := a.spoolPushLine_counts line
  rw [if_pos (spoolPushLine_of_spools h line).1] at hcount
  rw [spooled, spoolDepth, spoolDrops, hspool]
  exact hcount

theorem spooled_applyEvent (htarget : a.flow.target x.ev x.nowMs = some i)
    (hrel : a.flow.releases x.ev = false) :
    (a.applyEvent x).1.spooled = a.spooled + if a.Spools ∧ a.Announces x i then 1 else 0 := by
  have hspool := applyEvent_spool_of_not_releases htarget hrel
  have hann := announces_iff (a := a) (x := x) (i := i)
  cases hline : a.newLine x i with
  | none =>
    rw [hline] at hspool hann
    rw [if_neg fun h ↦ by simpa using hann.mp h.2, spooled, spoolDepth, spoolDrops, hspool]
    rfl
  | some line =>
    rw [hline] at hspool hann
    dsimp only at hspool
    by_cases h : a.Spools
    · rw [if_pos ⟨h, hann.mpr ⟨line, rfl⟩⟩]
      exact spooled_of_push h hspool
    · rw [if_neg fun hboth ↦ h hboth.1, spooled, spoolDepth, spoolDrops, hspool,
        spoolPushLine_of_not_spools h]
      rfl

/-! ## Whether the spool takes lines -/

theorem spools_congr {b : CpeAgent} (h : b.spool = a.spool) : b.Spools ↔ a.Spools := by
  rw [Spools, Spools, h]

theorem spools_push_iff (a : CpeAgent) (line : CStr) :
    (a.spoolPushLine line).1.Spools ↔ a.Spools := by
  by_cases h : a.Spools
  · exact iff_of_true (spoolPushLine_of_spools h line).2 h
  · rw [spoolPushLine_of_not_spools h]

theorem spools_emitDestroyLine_iff (a : CpeAgent) (clock : Option WallClock) (e : CpeFlowEntry) :
    (a.emitDestroyLine clock e).Spools ↔ a.Spools := by
  have hspool := emitDestroyLine_spool (a := a) (b := a) rfl rfl clock e
  cases hline : a.flowLine clock "destroy" e with
  | none =>
    rw [hline] at hspool
    exact spools_congr hspool
  | some line =>
    rw [hline] at hspool
    exact (spools_congr hspool).trans (spools_push_iff a line)

theorem spools_teardown_iff (a : CpeAgent) (i : FlowSlot) (clock : Option WallClock) :
    (a.teardown i clock).Spools ↔ a.Spools := by
  rw [teardown, spools_congr (releaseSlot_spool _ i), spools_emitDestroyLine_iff]
  exact spools_congr rfl

theorem applyEvent_spool_of_target_none (htarget : a.flow.target x.ev x.nowMs = none) :
    (a.applyEvent x).1.spool = a.spool := by
  rw [applyEvent_of_target_none htarget]
  split
  · rfl
  · exact a.warnNoAcct_spool x.ev

theorem spools_applyEvent_iff (a : CpeAgent) (x : FlowInput) :
    (a.applyEvent x).1.Spools ↔ a.Spools := by
  cases htarget : a.flow.target x.ev x.nowMs with
  | none => exact spools_congr (applyEvent_spool_of_target_none htarget)
  | some i =>
    cases hrel : a.flow.releases x.ev with
    | true =>
      have hsame : ((a.warnNoAcct x.ev).storeInSlot i x).spool = a.spool :=
        a.warnNoAcct_spool x.ev
      rw [applyEvent_of_releases htarget hrel, spools_teardown_iff]
      exact spools_congr hsame
    | false =>
      have hspool := applyEvent_spool_of_not_releases htarget hrel
      cases hline : a.newLine x i with
      | none =>
        rw [hline] at hspool
        exact spools_congr hspool
      | some line =>
        rw [hline] at hspool
        exact (spools_congr hspool).trans (spools_push_iff a line)

end CpeAgent

/-! ## Runs -/

/-- An agent, and for every slot the `new` lines pushed for its flow and the NEW events that called
for one, both since the flow entered the slot. -/
structure Announcing where
  agent : CpeAgent
  announced : FlowSlot → ℕ
  news : FlowSlot → ℕ

namespace Announcing

/-- One event. What it pushes is a `new` line unless it releases its slot. -/
def step (t : Announcing) (x : FlowInput) : Announcing :=
  let agent := (t.agent.applyEvent x).1
  match t.agent.flow.target x.ev x.nowMs with
  | none => { t with agent := agent }
  | some i =>
    { agent := agent
      announced := Function.update t.announced i
        ((if (t.agent.flow.table i).holds x then t.announced i else 0) +
          if t.agent.flow.releases x.ev then 0 else agent.spooled - t.agent.spooled)
      news := Function.update t.news i
        ((if (t.agent.flow.table i).holds x then t.news i else 0) +
          if t.agent.Announces x i then 1 else 0) }

/-- The agent at the start of a run, with nothing announced. -/
def start (a : CpeAgent) : Announcing := ⟨a, fun _ ↦ 0, fun _ ↦ 0⟩

/-- One line has been pushed for each NEW event, if the spool takes lines at all. -/
def OneForEach (t : Announcing) : Prop :=
  ∀ i, t.announced i = if t.agent.Spools then t.news i else 0

theorem not_announces_of_releases {a : CpeAgent} {x : FlowInput} {i : FlowSlot}
    (h : a.flow.releases x.ev = true) : ¬ a.Announces x i := by
  rintro ⟨hnew, -⟩
  rw [CpeFlowState.releases, hnew] at h
  exact absurd h Bool.false_ne_true

theorem OneForEach.step {t : Announcing} (h : t.OneForEach) (x : FlowInput) :
    (t.step x).OneForEach := by
  have hspools := t.agent.spools_applyEvent_iff x
  rw [Announcing.step]
  cases htarget : t.agent.flow.target x.ev x.nowMs with
  | none =>
    intro j
    dsimp only
    simp only [hspools]
    exact h j
  | some i =>
    intro j
    dsimp only
    simp only [hspools]
    by_cases hj : j = i
    · subst hj
      have hpushed : (if t.agent.flow.releases x.ev then 0
          else (t.agent.applyEvent x).1.spooled - t.agent.spooled)
          = if t.agent.Spools ∧ t.agent.Announces x j then 1 else 0 := by
        cases hrel : t.agent.flow.releases x.ev with
        | true =>
          rw [if_pos rfl, if_neg fun hboth ↦ not_announces_of_releases hrel hboth.2]
        | false =>
          rw [if_neg Bool.false_ne_true, CpeAgent.spooled_applyEvent htarget hrel,
            Nat.add_sub_cancel_left]
      have hj := h j
      rw [Function.update_self, Function.update_self, hpushed]
      by_cases hspool : t.agent.Spools
      · rw [if_pos hspool] at hj
        simp only [hspool, true_and, if_true, hj]
      · rw [if_neg hspool] at hj
        simp only [hspool, false_and, if_false, hj, ite_self, add_zero]
    · rw [Function.update_of_ne hj, Function.update_of_ne hj]
      exact h j

/-- A flow is announced once for each NEW event that is stored for it and whose record fits a line,
and by no other event. -/
theorem oneForEach_run (a : CpeAgent) (xs : List FlowInput) :
    AllStates step OneForEach (start a) xs := by
  have hstart : (start a).OneForEach := fun _ ↦ (ite_self 0).symm
  exact allStates_of_invariant (fun _ x h ↦ h.step x) hstart xs

/-- The same NEW event twice: the flow is announced twice. -/
theorem announced_twice :
    ¬ AllStates step (fun t ↦ ∀ i, t.announced i ≤ 1)
      (start { oneSlotAgent with flow := { oneSlotAgent.flow with emitNew := true } })
      [eventOf .new 6 1000, eventOf .new 6 3000] := by
  intro h
  have hlast := h.2.2 0
  revert hlast
  decide +kernel

end Announcing

end NetForensics
