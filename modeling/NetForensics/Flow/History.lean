import NetForensics.Flow.Apply
import NetForensics.Util.Run

/-!
# What a slot remembers

A slot of the flow table should be the work of one flow: of the event that put it there and the
events that were matched to it since. `Traced` runs the agent with that history next to each slot,
and the main result compares the slot with its history replayed into an empty table.

The comparison goes wrong in one place. A new flow that finds the table full is merged into the
slot of the flow it evicts, which keeps the identifier, the start time and, without counters of its
own, the counters of the other flow.
-/

namespace NetForensics

namespace CpeAgent

def feed (a : CpeAgent) (xs : List FlowInput) : CpeAgent :=
  xs.foldl (fun a x ↦ (a.applyEvent x).1) a

theorem feed_append (a : CpeAgent) (xs ys : List FlowInput) :
    a.feed (xs ++ ys) = (a.feed xs).feed ys :=
  List.foldl_append

theorem feed_concat (a : CpeAgent) (xs : List FlowInput) (x : FlowInput) :
    a.feed (xs ++ [x]) = ((a.feed xs).applyEvent x).1 :=
  a.feed_append xs [x]

theorem retabled_feed (a : CpeAgent) (xs : List FlowInput) :
    ∃ table, a.flow.Retabled table (a.feed xs).flow := by
  induction xs generalizing a with
  | nil => exact ⟨_, _, _, _, _, rfl⟩
  | cons x xs ih =>
    obtain ⟨table, h⟩ := ih (a.applyEvent x).1
    exact ⟨table, (a.retabled_applyEvent x).trans h⟩

theorem feed_releases (a : CpeAgent) (xs : List FlowInput) (ev : NfctEvent) :
    (a.feed xs).flow.releases ev = a.flow.releases ev := by
  obtain ⟨_, h⟩ := a.retabled_feed xs
  exact h.releases_eq ev

theorem feed_maxFlows (a : CpeAgent) (xs : List FlowInput) :
    (a.feed xs).flow.maxFlows = a.flow.maxFlows := by
  obtain ⟨_, h⟩ := a.retabled_feed xs
  exact h.maxFlows_eq

end CpeAgent

/-! ## Histories -/

/-- An agent, and for every slot the events its record is made of. -/
structure Traced where
  agent : CpeAgent
  history : FlowSlot → List FlowInput

/-- What is left of a history when `x` goes to a slot: nothing if the slot is released, the history
with `x` if the slot is the flow of `x`, and `x` alone if it is not. -/
def CpeFlowState.extend (st : CpeFlowState) (i : FlowSlot) (past : List FlowInput)
    (x : FlowInput) : List FlowInput :=
  if st.releases x.ev then []
  else if (st.table i).used && (st.table i).answers (entryFromEvent x.ev x.nowMs) then past ++ [x]
  else [x]

namespace Traced

def step (t : Traced) (x : FlowInput) : Traced where
  agent := (t.agent.applyEvent x).1
  history := match t.agent.flow.target x.ev x.nowMs with
    | none => t.history
    | some i => Function.update t.history i (t.agent.flow.extend i (t.history i) x)

def run (t : Traced) (xs : List FlowInput) : Traced := xs.foldl step t

theorem run_agent (t : Traced) (xs : List FlowInput) : (t.run xs).agent = t.agent.feed xs := by
  induction xs generalizing t with
  | nil => rfl
  | cons x xs ih => exact ih (t.step x)

end Traced

/-- The event does not evict: it is ignored or released at once, or some slot below `max_flows` is
free or answers it, or no slot is old enough to be a victim. -/
def CpeFlowState.Spares (st : CpeFlowState) (x : FlowInput) : Prop :=
  x.ev.ignored = true ∨ st.releases x.ev = true ∨
    (∃ i ∈ scanned st.maxFlows, (st.table i).used = false ∨
      (st.table i).answers (entryFromEvent x.ev x.nowMs) = true) ∨
    ∀ i ∈ scanned st.maxFlows, ¬ (st.table i).lastSeenMs < UInt64.ofNat (2 ^ 64 - 1)

/-- No event of the run evicts a flow. -/
def CpeAgent.AllSpare (a : CpeAgent) (xs : List FlowInput) : Prop :=
  AllSteps (fun a x ↦ (a.applyEvent x).1) (fun a x ↦ a.flow.Spares x) a xs

/-! ## Replaying a history -/

theorem scanned_head {maxFlows : UInt32} (h : 1 ≤ maxFlows.toNat) :
    ∃ rest, scanned maxFlows = (0 : FlowSlot) :: rest := by
  obtain ⟨k, hk⟩ : ∃ k, min maxFlows.toNat cpeFlowMax = k + 1 :=
    Nat.exists_eq_add_of_le' (le_min h (by decide))
  rw [scanned]
  generalize_proofs hle
  revert hle
  rw [hk]
  intro hle
  rw [List.finRange_succ, List.map_cons]
  exact ⟨_, rfl⟩

namespace CpeFlowState

variable {st : CpeFlowState}

/-- With only slot 0 occupied, if any, an event goes there unless that slot is another flow's. -/
theorem target_eq_zero (hmax : 1 ≤ st.maxFlows.toNat) {ev : NfctEvent} {nowMs : UInt64}
    (hign : ev.ignored = false) (hrest : ∀ j, j ≠ 0 → (st.table j).used = false)
    (hzero : (st.table 0).used = true → (st.table 0).answers (entryFromEvent ev nowMs) = true) :
    st.target ev nowMs = some 0 := by
  obtain ⟨rest, hscan⟩ := scanned_head hmax
  have hign' : ¬ ev.ignored = true := by rw [hign]; exact Bool.false_ne_true
  rw [target, if_neg hign', findSlot, scan_eq, hscan]
  cases hu : (st.table 0).used with
  | true =>
    rw [List.find?_cons_of_pos (by rw [hu, hzero hu]; rfl)]
    rfl
  | false =>
    have hnone : List.find? (fun i ↦ (st.table i).used &&
        (st.table i).answers (entryFromEvent ev nowMs)) (0 :: rest) = none := by
      refine find?_answer_eq_none.mpr fun j _ huj ↦ ?_
      by_cases hj : j = 0
      · rw [hj, hu] at huj
        exact absurd huj Bool.false_ne_true
      · rw [hrest j hj] at huj
        exact absurd huj Bool.false_ne_true
    rw [hnone, List.find?_cons_of_pos (by rw [hu]; rfl)]
    rfl

/-- An event that does not evict goes to a free slot or to its own, unless it is released. -/
theorem Spares.of_target {x : FlowInput} (h : st.Spares x) {i : FlowSlot}
    (htarget : st.target x.ev x.nowMs = some i) :
    (st.table i).used = false ∨ (st.table i).answers (entryFromEvent x.ev x.nowMs) = true ∨
      st.releases x.ev = true := by
  have hign := ignored_of_target htarget
  have hscan := scanResult_target st hign x.nowMs
  rw [htarget] at hscan
  cases hscan with
  | known hmem hused hown hfirst => exact Or.inr (Or.inl hown)
  | free hmem hfree hno => exact Or.inl hfree
  | evict hmem hused hfull hno hvictims =>
    obtain ⟨k, hk, hyoung⟩ := hvictims
    rcases h with hign' | hrel | ⟨j, hj, hfree | hown⟩ | hstamp
    · exact absurd hign (by simp [hign'])
    · exact Or.inr (Or.inr hrel)
    · exact absurd (hfull j hj) (by simp [hfree])
    · exact absurd (hno j hj) (by simp [hown])
    · exact absurd hyoung (hstamp k hk)

end CpeFlowState

/-- The record `e` alone in slot 0, the rest of the table free. -/
structure CpeFlowState.Solo (st : CpeFlowState) (e : CpeFlowEntry) : Prop where
  zero_eq : st.table 0 = e
  rest : ∀ j, j ≠ 0 → (st.table j).used = false

/-- An event of the flow in slot 0, or any event when slot 0 is free too, is stored there. -/
theorem CpeFlowState.Solo.applyEvent {a : CpeAgent} {e : CpeFlowEntry} (h : a.flow.Solo e)
    (hmax : 1 ≤ a.flow.maxFlows.toNat) {x : FlowInput} (hign : x.ev.ignored = false)
    (hrel : a.flow.releases x.ev = false)
    (hown : e.used = true → e.answers (entryFromEvent x.ev x.nowMs) = true) :
    (a.applyEvent x).1.flow.Solo (storeEvent e x.ev x.nowMs) := by
  have htarget : a.flow.target x.ev x.nowMs = some 0 :=
    target_eq_zero hmax hign h.rest (by rw [h.zero_eq]; exact hown)
  have htable := a.applyEvent_table x
  rw [tableStep_of_target htarget, settle_of_not_releases hrel, h.zero_eq] at htable
  constructor
  · rw [htable, Function.update_self]
  · intro j hj
    rw [htable, Function.update_of_ne hj]
    exact h.rest j hj

/-! ## The invariant -/

/-- Every occupied slot is the replay of its history into the empty table of `a`. -/
def Traced.Faithful (a : CpeAgent) (t : Traced) : Prop :=
  ∀ i, (t.agent.flow.table i).used = true →
    t.history i ≠ [] ∧ (a.feed (t.history i)).flow.Solo (t.agent.flow.table i)

variable {a : CpeAgent} {t : Traced}

/-- An event that opens a slot: the history of the slot starts with it. -/
theorem solo_feed_singleton (hempty : ∀ i, (a.flow.table i).used = false)
    (hmax : 1 ≤ a.flow.maxFlows.toNat) {x : FlowInput} (hign : x.ev.ignored = false)
    (hrel : a.flow.releases x.ev = false) {e : CpeFlowEntry} (hfree : e.used = false) :
    (a.feed [x]).flow.Solo (storeEvent e x.ev x.nowMs) := by
  have hsolo : a.flow.Solo (a.flow.table 0) := ⟨rfl, fun k _ ↦ hempty k⟩
  have hnew := hsolo.applyEvent hmax hign hrel (fun hu ↦ absurd (hempty 0) (by simp [hu]))
  rw [storeEvent_of_unused (hempty 0)] at hnew
  rw [storeEvent_of_unused hfree]
  exact hnew

theorem Traced.Faithful.step (h : t.Faithful a) (hempty : ∀ i, (a.flow.table i).used = false)
    (hmax : 1 ≤ a.flow.maxFlows.toNat)
    (hsame : ∀ ev, t.agent.flow.releases ev = a.flow.releases ev) {x : FlowInput}
    (hspare : t.agent.flow.Spares x) : (t.step x).Faithful a := by
  intro j hj
  have htable := t.agent.applyEvent_table x
  rw [Traced.step] at hj ⊢
  dsimp only at hj ⊢
  cases htarget : t.agent.flow.target x.ev x.nowMs with
  | none =>
    rw [CpeFlowState.tableStep_of_target_none htarget] at htable
    rw [htable] at hj ⊢
    exact h j hj
  | some i =>
    rw [CpeFlowState.tableStep_of_target htarget] at htable
    rw [htable] at hj ⊢
    dsimp only
    by_cases hji : j = i
    · subst hji
      rw [Function.update_self] at hj ⊢
      rw [Function.update_self]
      have hign := CpeFlowState.ignored_of_target htarget
      have hrel : t.agent.flow.releases x.ev = false := by
        by_contra hrel
        rw [CpeFlowState.settle_used_of_releases (Bool.not_eq_false _ ▸ hrel)] at hj
        exact Bool.false_ne_true hj
      rw [CpeFlowState.settle_of_not_releases hrel, CpeFlowState.extend, if_neg (by simp [hrel])]
      rw [hsame] at hrel
      cases hused : (t.agent.flow.table j).used with
      | false =>
        rw [Bool.false_and, if_neg Bool.false_ne_true]
        exact ⟨List.cons_ne_nil _ _, solo_feed_singleton hempty hmax hign hrel hused⟩
      | true =>
        -- the event was matched to the slot: the replay is one event longer
        have hown : (t.agent.flow.table j).answers (entryFromEvent x.ev x.nowMs) = true := by
          rcases hspare.of_target htarget with hfree | hown | hrel'
          · exact absurd hfree (by simp [hused])
          · exact hown
          · exact absurd hrel (by simp [← hsame, hrel'])
        rw [hown, Bool.and_self, if_pos rfl, CpeAgent.feed_concat]
        refine ⟨List.append_ne_nil_of_right_ne_nil _ (List.cons_ne_nil _ _), ?_⟩
        exact (h j hused).2.applyEvent (by rwa [CpeAgent.feed_maxFlows]) hign
          (by rwa [CpeAgent.feed_releases]) fun _ ↦ hown
    · rw [Function.update_of_ne hji] at hj ⊢
      rw [Function.update_of_ne hji]
      exact h j hj

theorem CpeFlowState.extend_sublist (st : CpeFlowState) (i : FlowSlot) {past xs : List FlowInput}
    (h : List.Sublist past xs) (x : FlowInput) :
    List.Sublist (st.extend i past x) (xs ++ [x]) := by
  rw [extend]
  split
  · exact List.nil_sublist _
  · split
    · exact h.append (List.Sublist.refl [x])
    · exact List.sublist_append_right xs [x]

theorem Traced.step_sublist {xs : List FlowInput} (h : ∀ i, List.Sublist (t.history i) xs)
    (x : FlowInput) (i : FlowSlot) : List.Sublist ((t.step x).history i) (xs ++ [x]) := by
  have hold : List.Sublist (t.history i) (xs ++ [x]) :=
    (h i).trans (List.sublist_append_left xs [x])
  rw [step]
  dsimp only
  cases t.agent.flow.target x.ev x.nowMs with
  | none => exact hold
  | some k =>
    dsimp only
    by_cases hik : i = k
    · subst hik
      rw [Function.update_self]
      exact t.agent.flow.extend_sublist i (h i) x
    · rw [Function.update_of_ne hik]
      exact hold

theorem Traced.Faithful.run {past : List FlowInput} (h : t.Faithful a)
    (hempty : ∀ i, (a.flow.table i).used = false) (hmax : 1 ≤ a.flow.maxFlows.toNat)
    (hagent : t.agent = a.feed past) (hsub : ∀ i, List.Sublist (t.history i) past)
    (xs : List FlowInput) (hspare : t.agent.AllSpare xs) :
    (t.run xs).Faithful a ∧ ∀ i, List.Sublist ((t.run xs).history i) (past ++ xs) := by
  induction xs generalizing t past with
  | nil => exact ⟨h, fun i ↦ (List.append_nil past).symm ▸ hsub i⟩
  | cons x xs ih =>
    -- `past` grows by the event, and the agent is the one that was fed it
    have hsame : ∀ ev, t.agent.flow.releases ev = a.flow.releases ev := by
      intro ev
      rw [hagent, CpeAgent.feed_releases]
    have hnext : (t.step x).agent = a.feed (past ++ [x]) := by
      rw [CpeAgent.feed_concat, ← hagent]
      rfl
    have hrest := ih (h.step hempty hmax hsame hspare.1) hnext (t.step_sublist hsub x) hspare.2
    rw [List.append_assoc, List.singleton_append] at hrest
    exact hrest

/-- Starting from an empty table, in a run that evicts no flow: every occupied slot has a history,
made of events of the run, and holds what that history gives when it is replayed alone into the
empty table. -/
theorem slot_eq_replay (a : CpeAgent) (hempty : ∀ i, a.flow.table i = CpeFlowEntry.zero)
    (hmax : 1 ≤ a.flow.maxFlows.toNat) (xs : List FlowInput) (hspare : a.AllSpare xs)
    (i : FlowSlot) (hused : ((a.feed xs).flow.table i).used = true) :
    (Traced.run ⟨a, fun _ ↦ []⟩ xs).history i ≠ [] ∧
      List.Sublist ((Traced.run ⟨a, fun _ ↦ []⟩ xs).history i) xs ∧
      (a.feed xs).flow.table i
        = (a.feed ((Traced.run ⟨a, fun _ ↦ []⟩ xs).history i)).flow.table 0 := by
  have hfree : ∀ i, (a.flow.table i).used = false := fun i ↦ by rw [hempty i]; rfl
  have hstart : Traced.Faithful a ⟨a, fun _ ↦ []⟩ := by
    intro i hi
    exact absurd hi (by simp [hfree i])
  obtain ⟨hfaith, hsub⟩ := hstart.run hfree hmax rfl (fun _ ↦ List.Sublist.refl []) xs hspare
  have hi := hfaith i (by rw [Traced.run_agent]; exact hused)
  rw [Traced.run_agent] at hi
  exact ⟨hi.1, hsub i, hi.2.zero_eq.symm⟩

/-! ## A table of one slot -/

/-- A new agent with `max_flows` at 1. -/
def oneSlotAgent : CpeAgent :=
  { CpeAgent.create with flow := { cpeFlowStateInit with maxFlows := 1 } }

/-- An event of the flow between 192.168.1.10 and 1.1.1.1 under the given protocol. -/
def eventOf (type : NfctEventType) (protocol : UInt8) (nowMs : UInt64) : FlowInput where
  ev := { NfctEvent.blank with
    type := type, isDestroy := decide (type = .destroy), hasLan := true, protocol := protocol,
    lanSrcIp := 3232235786, lanDstIp := 16843009 }
  nowMs := nowMs
  clock := none

/-- One flow, opened and updated: the slot is the replay of both events. -/
theorem slot_eq_replay_updated :
    ((oneSlotAgent.feed [eventOf .new 6 1000, eventOf .update 6 3000]).flow.table 0)
      = (oneSlotAgent.feed ((Traced.run ⟨oneSlotAgent, fun _ ↦ []⟩
          [eventOf .new 6 1000, eventOf .update 6 3000]).history 0)).flow.table 0 := by
  have hspare : oneSlotAgent.AllSpare [eventOf .new 6 1000, eventOf .update 6 3000] := by
    refine ⟨Or.inr (Or.inr (Or.inl ⟨0, by decide, Or.inl rfl⟩)),
      Or.inr (Or.inr (Or.inl ⟨0, by decide, Or.inr ?_⟩)), trivial⟩
    decide
  exact (slot_eq_replay oneSlotAgent (fun _ ↦ rfl) (by decide) _ hspare 0 (by decide)).2.2

/-- A second flow in a full table: its slot starts at the first flow's time, not at its own. -/
theorem slot_ne_replay_evicted :
    ¬ ∀ i, ((oneSlotAgent.feed [eventOf .new 6 1000, eventOf .new 17 2000]).flow.table i).used
        = true →
      (Traced.run ⟨oneSlotAgent, fun _ ↦ []⟩
          [eventOf .new 6 1000, eventOf .new 17 2000]).history i ≠ [] ∧
        List.Sublist ((Traced.run ⟨oneSlotAgent, fun _ ↦ []⟩
          [eventOf .new 6 1000, eventOf .new 17 2000]).history i)
          [eventOf .new 6 1000, eventOf .new 17 2000] ∧
        (oneSlotAgent.feed [eventOf .new 6 1000, eventOf .new 17 2000]).flow.table i
          = (oneSlotAgent.feed ((Traced.run ⟨oneSlotAgent, fun _ ↦ []⟩
              [eventOf .new 6 1000, eventOf .new 17 2000]).history i)).flow.table 0 := by
  intro h
  have hslot := (h 0 (by decide +kernel)).2.2
  have hseen := congrArg CpeFlowEntry.firstSeenMs hslot
  exact absurd hseen (by decide +kernel)

end NetForensics
