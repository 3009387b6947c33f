import NetForensics.Flow.History

/-!
# What a teardown leaves alone

A DESTROY should touch the flow it tears down and no other. It goes through the same slot search
and the same merge as any event, so it can reach a slot of another flow in two ways: it is unknown
and the table is full, and then it evicts; or it carries no tuple, and the all-zero tuple printed
for it is that of an entry with another id.
-/

namespace NetForensics

/-- The record is of the flow the event speaks of: the same conntrack id, or the same tuple, where
the event has them. -/
def NfctEvent.Owns (ev : NfctEvent) (e : CpeFlowEntry) : Prop :=
  (ev.hasId = true ∧ e.hasCtId = true ∧ e.ctId = ev.id) ∨
    (ev.hasLan = true ∧ e.tuple = (entryFromEvent ev 0).tuple)

instance (ev : NfctEvent) (e : CpeFlowEntry) : Decidable (ev.Owns e) :=
  inferInstanceAs (Decidable (_ ∨ _))

/-- The tuple printed for an event does not depend on the clock. -/
theorem entryFromEvent_tuple (ev : NfctEvent) (nowMs nowMs' : UInt64) :
    (entryFromEvent ev nowMs).tuple = (entryFromEvent ev nowMs').tuple := by
  unfold entryFromEvent
  dsimp only
  split <;> rfl

theorem NfctEvent.Owns.answers {ev : NfctEvent} {e : CpeFlowEntry} (h : ev.Owns e)
    (nowMs : UInt64) : e.answers (entryFromEvent ev nowMs) = true := by
  rw [answers_entryFromEvent, entryFromEvent_tuple ev nowMs 0]
  exact h.imp_right And.right

/-- The event stays with its own flow: the first slot below `max_flows` that answers it is of its
flow, or none answers and one is free, or none answers and none can be evicted. -/
def CpeFlowState.Aimed (st : CpeFlowState) (x : FlowInput) : Prop :=
  x.ev.ignored = true ∨
    match (scanned st.maxFlows).find? fun i ↦
        (st.table i).used && (st.table i).answers (entryFromEvent x.ev x.nowMs) with
    | some i => x.ev.Owns (st.table i)
    | none => (∃ i ∈ scanned st.maxFlows, (st.table i).used = false) ∨
        ∀ i ∈ scanned st.maxFlows, ¬ (st.table i).lastSeenMs < UInt64.ofNat (2 ^ 64 - 1)

/-- Every occupied slot of another flow is as it was. -/
def CpeAgent.OthersKept (a : CpeAgent) (x : FlowInput) : Prop :=
  ∀ i, (a.flow.table i).used = true → ¬ x.ev.Owns (a.flow.table i) →
    (a.applyEvent x).1.flow.table i = a.flow.table i

/-! ## Storing an event in a slot of another flow shows -/

theorem settle_ne {st : CpeFlowState} {e : CpeFlowEntry} {x : FlowInput} (hused : e.used = true)
    (hign : x.ev.ignored = false) (hown : ¬ x.ev.Owns e) : st.settle e x.ev x.nowMs ≠ e := by
  intro heq
  cases hrel : st.releases x.ev with
  | true =>
    have hfree := CpeFlowState.settle_used_of_releases hrel e x.nowMs
    rw [heq, hused] at hfree
    exact Bool.false_ne_true hfree.symm
  | false =>
    rw [CpeFlowState.settle_of_not_releases hrel] at heq
    rw [NfctEvent.Owns, not_or] at hown
    cases hlan : x.ev.hasLan with
    | true =>
      have htuple := storeEvent_tuple e x.ev x.nowMs
      rw [heq, entryFromEvent_tuple x.ev x.nowMs 0] at htuple
      exact hown.2 ⟨hlan, htuple⟩
    | false =>
      -- without a tuple the event is only taken for its id
      have hid : x.ev.hasId = true := by
        rw [NfctEvent.ignored, hlan] at hign
        cases hid : x.ev.hasId with
        | true => rfl
        | false =>
          rw [hid] at hign
          simp at hign
      obtain ⟨hhas, hct⟩ := storeEvent_ctId e hid x.nowMs
      rw [heq] at hhas hct
      exact hown.1 ⟨hid, hhas, hct⟩

theorem othersKept_iff_target (a : CpeAgent) (x : FlowInput) :
    a.OthersKept x ↔ ∀ i, a.flow.target x.ev x.nowMs = some i → (a.flow.table i).used = true →
      x.ev.Owns (a.flow.table i) := by
  constructor
  · intro h i htarget hused
    by_contra hown
    have hkept := h i hused hown
    rw [CpeFlowState.applyEvent_slot htarget] at hkept
    exact settle_ne hused (CpeFlowState.ignored_of_target htarget) hown hkept
  · intro h i hused hown
    refine CpeFlowState.applyEvent_slot_of_ne fun htarget ↦ ?_
    exact hown (h i htarget hused)

/-! ## Where the search ends -/

theorem aimed_iff_target (st : CpeFlowState) (x : FlowInput) :
    st.Aimed x ↔ ∀ i, st.target x.ev x.nowMs = some i → (st.table i).used = true →
      x.ev.Owns (st.table i) := by
  by_cases hign : x.ev.ignored = true
  · refine iff_of_true (Or.inl hign) fun i htarget ↦ ?_
    exact absurd (CpeFlowState.ignored_of_target htarget) (by simp [hign])
  rw [Bool.not_eq_true] at hign
  rw [CpeFlowState.Aimed, or_iff_right (by simp [hign])]
  have hscan := scanResult_target st hign x.nowMs
  generalize htarget : st.target x.ev x.nowMs = target at hscan
  cases hscan with
  | @known i hmem hused hown hfirst =>
    rw [hfirst]
    constructor
    · intro h j hj _
      cases hj
      exact h
    · intro h
      exact h i rfl hused
  | @free i hmem hfree hno =>
    rw [find?_answer_eq_none.mpr hno]
    refine iff_of_true (Or.inl ⟨i, hmem, hfree⟩) fun j hj hu ↦ ?_
    cases hj
    rw [hfree] at hu
    exact absurd hu Bool.false_ne_true
  | @evict i hmem hused hfull hno hvictims =>
    -- the victim is of another flow, since no slot answers
    rw [find?_answer_eq_none.mpr fun j hj _ ↦ hno j hj]
    refine iff_of_false ?_ fun h ↦ ?_
    · obtain ⟨k, hk, hyoung⟩ := hvictims
      rintro (⟨j, hj, hfree⟩ | hstamp)
      · exact absurd (hfull j hj) (by simp [hfree])
      · exact hstamp k hk hyoung
    · have hown := (h i rfl hused).answers x.nowMs
      rw [hno i hmem] at hown
      exact Bool.false_ne_true hown
  | stuck hfull hno hstamp =>
    rw [find?_answer_eq_none.mpr fun j hj _ ↦ hno j hj]
    exact iff_of_true (Or.inr hstamp) fun j hj ↦ absurd hj (by simp)

/-- An event, a teardown or not, leaves every other flow alone if and only if its search ends at its
own flow or at a slot that was free. -/
theorem othersKept_iff (a : CpeAgent) (x : FlowInput) : a.OthersKept x ↔ a.flow.Aimed x :=
  (othersKept_iff_target a x).trans (aimed_iff_target a.flow x).symm

/-- The teardown of a flow that is not in the table, with the table full: the flow that is in the
table goes. -/
theorem not_othersKept_full :
    ¬ (oneSlotAgent.feed [eventOf .new 6 1000]).OthersKept (eventOf .destroy 17 2000) := by
  intro h
  have hother : ¬ (eventOf .destroy 17 2000).ev.Owns
      ((oneSlotAgent.feed [eventOf .new 6 1000]).flow.table 0) := by decide
  have hslot := h 0 (by decide) hother
  exact absurd (congrArg CpeFlowEntry.used hslot) (by decide +kernel)

end NetForensics
