import NetForensics.Flow.Liveness
import NetForensics.Util.Top

/-!
# A round of samples

`emit_top_samples` collects the live slots in an array, brings the ones with the best rates to its
front by a selection sort that stops after `top_n` positions, and prints a line for each of these
that is not idle. However far the sort gets, the front of the array is a selection of the best
(`isTop_take_topSlots`): a pass moves the best of the rest to the front and keeps the rest.
-/

namespace NetForensics

section Selection

variable {ι : Type*} (rate : ι → ℚ)

/-- The inner loop finds nothing better than it started with, or the position of the best. -/
theorem bestPos_spec (is : List ι) (k : ℕ) (bestR : ℚ) (best : Option ℕ) :
    (bestPos rate is k bestR best = best ∧ ∀ x ∈ is, rate x ≤ bestR) ∨
      ∃ p j, is[p]? = some j ∧ bestPos rate is k bestR best = some (k + p) ∧ bestR < rate j ∧
        ∀ x ∈ is, rate x ≤ rate j := by
  -- the two bounds of the loop change together, so both are generalized
  induction is generalizing k bestR best with
  | nil => exact Or.inl ⟨rfl, fun x hx ↦ absurd hx List.not_mem_nil⟩
  | cons i is ih =>
    rw [bestPos]
    split
    · next hbetter =>
      obtain ⟨hbest, hall⟩ | ⟨p, j, hj, hbest, hlt, hall⟩ := ih (k + 1) (rate i) (some k)
      · exact Or.inr ⟨0, i, rfl, hbest, hbetter, List.forall_mem_cons.mpr ⟨le_rfl, hall⟩⟩
      · refine Or.inr ⟨p + 1, j, hj, ?_, hbetter.trans hlt,
          List.forall_mem_cons.mpr ⟨hlt.le, hall⟩⟩
        rw [hbest, Nat.add_right_comm, Nat.add_assoc]
    · next hworse =>
      have hle := not_lt.mp hworse
      obtain ⟨hbest, hall⟩ | ⟨p, j, hj, hbest, hlt, hall⟩ := ih (k + 1) bestR best
      · exact Or.inl ⟨hbest, List.forall_mem_cons.mpr ⟨hle, hall⟩⟩
      · refine Or.inr ⟨p + 1, j, hj, ?_, hlt, List.forall_mem_cons.mpr ⟨hle.trans hlt.le, hall⟩⟩
        rw [hbest, Nat.add_right_comm, Nat.add_assoc]

theorem cons_set_perm {is : List ι} {p : ℕ} {j : ι} (h : is[p]? = some j) (i : ι) :
    (j :: is.set p i).Perm (i :: is) := by
  obtain ⟨hp, rfl⟩ := List.getElem?_eq_some_iff.mp h
  calc List.Perm (is[p] :: is.set p i) (is[p] :: i :: is.eraseIdx p) :=
        (List.set_perm_cons_eraseIdx hp i).cons _
    List.Perm _ (i :: is[p] :: is.eraseIdx p) := List.Perm.swap _ _ _
    List.Perm _ (i :: is) := (List.getElem_cons_eraseIdx_perm hp).cons i

theorem topSlots_succ (n : ℕ) (i : ι) (is : List ι) :
    ∃ j rest, topSlots rate (n + 1) (i :: is) = j :: topSlots rate n rest ∧
      (j :: rest).Perm (i :: is) ∧ ∀ x ∈ i :: is, rate x ≤ rate j := by
  rw [topSlots]
  obtain ⟨hbest, hall⟩ | ⟨p, j, hj, hbest, hlt, hall⟩ := bestPos_spec rate is 0 (rate i) none
  · rw [hbest]
    exact ⟨i, is, rfl, List.Perm.refl _, List.forall_mem_cons.mpr ⟨le_rfl, hall⟩⟩
  · rw [hbest, Nat.zero_add, Option.bind_some, hj]
    exact ⟨j, is.set p i, rfl, cons_set_perm hj i, List.forall_mem_cons.mpr ⟨hlt.le, hall⟩⟩

/-- The front of the array after `n` passes is a selection of the best. -/
theorem isTop_take_topSlots (n : ℕ) (l : List ι) : IsTop rate ((topSlots rate n l).take n) l := by
  induction n generalizing l with
  | zero => exact ⟨l, List.Perm.refl _, List.Pairwise.nil, fun x hx ↦ absurd hx List.not_mem_nil⟩
  | succ n ih =>
    cases l with
    | nil => exact ⟨[], List.Perm.refl _, List.Pairwise.nil, fun x hx ↦ absurd hx List.not_mem_nil⟩
    | cons i is =>
      obtain ⟨j, rest, hpass, hperm, hbest⟩ := topSlots_succ rate n i is
      -- the rest is a rearrangement, so the best of all is also at least the best of it
      obtain ⟨left, htop, hsorted, hdom⟩ := ih rest
      have hle : ∀ x ∈ rest, rate x ≤ rate j :=
        fun x hx ↦ hbest x (hperm.subset (List.mem_cons_of_mem j hx))
      rw [hpass, List.take_succ_cons]
      refine ⟨left, (htop.cons j).trans hperm, ?_, ?_⟩
      · exact List.pairwise_cons.mpr
          ⟨fun x hx ↦ hle x (htop.subset (List.mem_append_left left hx)), hsorted⟩
      · rintro x hx y hy
        rcases List.mem_cons.mp hx with rfl | hx
        · exact hle y (htop.subset (List.mem_append_right _ hy))
        · exact hdom x hx y hy

theorem length_topSlots (n : ℕ) (l : List ι) : (topSlots rate n l).length = l.length := by
  induction n generalizing l with
  | zero => rw [topSlots]
  | succ n ih =>
    cases l with
    | nil => rw [topSlots]
    | cons i is =>
      obtain ⟨j, rest, hpass, hperm, -⟩ := topSlots_succ rate n i is
      rw [hpass, List.length_cons, ih]
      exact hperm.length_eq

end Selection

theorem nodup_scanned (maxFlows : UInt32) : (scanned maxFlows).Nodup :=
  (List.nodup_finRange _).map (Fin.castLE_injective _)

theorem CpeFlowEntry.not_idle_iff {e : CpeFlowEntry} (hup : e.bytesUpDelta.toNat < 2 ^ 63)
    (hdown : e.bytesDownDelta.toNat < 2 ^ 63) :
    (!e.idle) = true ↔ 1 ≤ e.combinedRate ∨ e.bytesUpDelta ≠ 0 ∨ e.bytesDownDelta ≠ 0 := by
  have hsum : e.bytesUpDelta + e.bytesDownDelta = 0 ↔
      e.bytesUpDelta = 0 ∧ e.bytesDownDelta = 0 := by
    rw [← UInt64.toNat_inj, ← UInt64.toNat_inj, ← UInt64.toNat_inj, UInt64.toNat_add,
      UInt64.toNat_zero]
    omega
  rw [idle, Bool.not_eq_true', Bool.and_eq_false_iff, decide_eq_false_iff_not, not_lt,
    beq_eq_false_iff_ne, ne_eq, hsum, not_and_or]

namespace CpeFlowState

variable (st : CpeFlowState)

/-- `indices[]` before the sort. -/
def liveSlots : List FlowSlot :=
  (scanned st.maxFlows).filter fun i ↦ (st.table i).used && (st.table i).alive

/-- The first entries of `indices[]` after the sort. -/
def selectedSlots : List FlowSlot :=
  (topSlots (fun i ↦ (st.table i).combinedRate) st.topN st.liveSlots).take st.topN

/-- The selected slots that have something to report. -/
def busySlots : List FlowSlot :=
  st.selectedSlots.filter fun i ↦ decide (1 ≤ (st.table i).combinedRate ∨
    (st.table i).bytesUpDelta ≠ 0 ∨ (st.table i).bytesDownDelta ≠ 0)

variable {st}

theorem mem_liveSlots {i : FlowSlot} : i ∈ st.liveSlots ↔
    i.val < st.maxFlows.toNat ∧ (st.table i).used = true ∧ (st.table i).alive = true := by
  rw [liveSlots, List.mem_filter, mem_scanned, Bool.and_eq_true]

theorem isTop_selectedSlots :
    IsTop (fun i ↦ (st.table i).combinedRate) st.selectedSlots st.liveSlots :=
  isTop_take_topSlots _ _ _

theorem length_selectedSlots : st.selectedSlots.length = min st.topN st.liveSlots.length := by
  rw [selectedSlots, List.length_take, length_topSlots]

theorem nodup_selectedSlots : st.selectedSlots.Nodup := by
  have hlive : (st.liveSlots.map id).Nodup := by
    rw [List.map_id]
    exact (nodup_scanned st.maxFlows).filter _
  have hsel : (st.selectedSlots.map id).Nodup := isTop_selectedSlots.nodup_map hlive
  rwa [List.map_id] at hsel

theorem sampleSlots_eq_busySlots (h : ∀ i, (st.table i).bytesUpDelta.toNat < 2 ^ 63 ∧
    (st.table i).bytesDownDelta.toNat < 2 ^ 63) : st.sampleSlots = st.busySlots := by
  refine List.filter_congr fun i _ ↦ ?_
  rw [Bool.eq_iff_iff, CpeFlowEntry.not_idle_iff (h i).1 (h i).2, decide_eq_true_iff]

end CpeFlowState

/-! ## What is pushed -/

namespace CpeAgent

variable {a : CpeAgent}

theorem spoolPushLine_setFlow (a : CpeAgent) (st : CpeFlowState) (line : CStr) :
    { a with flow := st }.spoolPushLine line
      = ({ (a.spoolPushLine line).1 with flow := st }, (a.spoolPushLine line).2) := by
  unfold spoolPushLine
  dsimp only
  split
  · rfl
  · dsimp only
    split
    · unfold eqPush
      dsimp only
      split <;> rfl
    · rfl

theorem pushLines_setFlow (a : CpeAgent) (st : CpeFlowState) (lines : List CStr) :
    { a with flow := st }.pushLines lines = { a.pushLines lines with flow := st } := by
  induction lines generalizing a with
  | nil => rfl
  | cons line lines ih =>
    have hcons : ∀ b : CpeAgent,
        b.pushLines (line :: lines) = (b.spoolPushLine line).1.pushLines lines := fun _ ↦ rfl
    rw [hcons, hcons, spoolPushLine_setFlow, ih]

theorem pushLines_cfg (a : CpeAgent) (lines : List CStr) : (a.pushLines lines).cfg = a.cfg :=
  foldl_invariant (P := fun b : CpeAgent ↦ b.cfg = a.cfg)
    (fun b line hb ↦ (spoolPushLine_cfg b line).trans hb) rfl lines

/-- The agent when some sample lines have been pushed and counted. -/
def sampled (a : CpeAgent) (lines : List CStr) : CpeAgent :=
  { a.pushLines lines with
    flow := { a.flow with
      samplesEmitted := a.flow.samplesEmitted + UInt64.ofNat lines.length } }

theorem sampled_nil (a : CpeAgent) : a.sampled [] = a := by
  have hzero : a.flow.samplesEmitted + UInt64.ofNat 0 = a.flow.samplesEmitted :=
    UInt64.add_zero _
  rw [sampled, List.length_nil, hzero]
  rfl

theorem sampled_append (a : CpeAgent) (xs ys : List CStr) :
    (a.sampled xs).sampled ys = a.sampled (xs ++ ys) := by
  rw [sampled, sampled, sampled, pushLines_setFlow, pushLines_append, List.length_append,
    UInt64.ofNat_add, ← UInt64.add_assoc]

theorem spools_sampled (h : a.Spools) (lines : List CStr) : (a.sampled lines).Spools :=
  spools_pushLines h lines

theorem flowLine_sampled (a : CpeAgent) (lines : List CStr) (clock : Option WallClock)
    (event : String) (e : CpeFlowEntry) :
    (a.sampled lines).flowLine clock event e = a.flowLine clock event e := by
  have hcfg : (a.sampled lines).cfg = a.cfg := pushLines_cfg a lines
  rw [flowLine, flowLine, hcfg]

theorem emitSample_of_spools (h : a.Spools) (clock : Option WallClock) (i : FlowSlot) :
    a.emitSample clock i = (a.sampled (a.flowLine clock "sample" (a.flow.table i)).toList,
      ((a.flowLine clock "sample" (a.flow.table i)).toList.length : ℤ)) := by
  rw [emitSample]
  cases a.flowLine clock "sample" (a.flow.table i) with
  | none => rw [Option.toList_none, sampled_nil]; rfl
  | some line =>
    dsimp only
    rw [if_pos (spoolPushLine_of_spools h line).1, spoolPushLine_flow]
    rfl

theorem emitSample_of_not_spools (h : ¬ a.Spools) (clock : Option WallClock) (i : FlowSlot) :
    a.emitSample clock i = (a, 0) := by
  rw [emitSample]
  cases a.flowLine clock "sample" (a.flow.table i) with
  | none => rfl
  | some line =>
    dsimp only
    rw [spoolPushLine_of_not_spools h]
    rfl

/-- The lines of some slots, in order; a line that does not fit its buffer is left out. -/
def sampleLines (a : CpeAgent) (clock : FlowSlot → Option WallClock) (is : List FlowSlot) :
    List CStr :=
  is.filterMap fun i ↦ a.flowLine (clock i) "sample" (a.flow.table i)

theorem sampleLines_cons (a : CpeAgent) (clock : FlowSlot → Option WallClock) (i : FlowSlot)
    (is : List FlowSlot) : a.sampleLines clock (i :: is)
      = (a.flowLine (clock i) "sample" (a.flow.table i)).toList ++ a.sampleLines clock is := by
  rw [sampleLines, sampleLines, List.filterMap_cons]
  cases a.flowLine (clock i) "sample" (a.flow.table i) <;> rfl

variable (clock : FlowSlot → Option WallClock)

theorem foldl_emitSample_of_spools (h : a.Spools) (is : List FlowSlot) (n : ℤ) :
    is.foldl (fun res i ↦ ((res.1.emitSample (clock i) i).1,
        res.2 + (res.1.emitSample (clock i) i).2)) (a, n)
      = (a.sampled (a.sampleLines clock is), n + (a.sampleLines clock is).length) := by
  induction is generalizing a n with
  | nil => rw [sampleLines, List.filterMap_nil, sampled_nil]; simp
  | cons i is ih =>
    have hrest : ∀ lines, (a.sampled lines).sampleLines clock is = a.sampleLines clock is :=
      fun lines ↦ List.filterMap_congr fun j _ ↦ flowLine_sampled a lines _ _ _
    rw [List.foldl_cons, emitSample_of_spools h, ih (spools_sampled h _), hrest, sampled_append,
      sampleLines_cons, List.length_append, Nat.cast_add, add_assoc]

theorem foldl_emitSample_of_not_spools (h : ¬ a.Spools) (is : List FlowSlot) (n : ℤ) :
    is.foldl (fun res i ↦ ((res.1.emitSample (clock i) i).1,
        res.2 + (res.1.emitSample (clock i) i).2)) (a, n) = (a, n) := by
  induction is with
  | nil => rfl
  | cons i is ih => rw [List.foldl_cons, emitSample_of_not_spools h, add_zero, ih]

def roundLines (a : CpeAgent) (now : UInt64) (clock : FlowSlot → Option WallClock) : List CStr :=
  if a.flow.sampleDue now = true ∧ a.Spools then a.sampleLines clock a.flow.busySlots else []

/-- The agent with the time of a round on record, if one is due. -/
def startRound (a : CpeAgent) (now : UInt64) : CpeAgent :=
  { a with flow := { a.flow with
    lastSampleMs := if a.flow.sampleDue now then now else a.flow.lastSampleMs } }

/-- What a call of `emit_top_samples` should do. -/
structure SamplesTop (a : CpeAgent) (now : UInt64) (clock : FlowSlot → Option WallClock) :
    Prop where
  length : a.flow.selectedSlots.length = min a.flow.topN a.flow.liveSlots.length
  nodup : a.flow.selectedSlots.Nodup
  live : ∀ i ∈ a.flow.selectedSlots, i.val < a.flow.maxFlows.toNat ∧
    (a.flow.table i).used = true ∧ (a.flow.table i).alive = true
  sorted : a.flow.selectedSlots.Pairwise fun i j ↦
    (a.flow.table j).combinedRate ≤ (a.flow.table i).combinedRate
  best : ∀ i ∈ a.flow.selectedSlots, ∀ j : FlowSlot, j.val < a.flow.maxFlows.toNat →
    (a.flow.table j).used = true → (a.flow.table j).alive = true → j ∉ a.flow.selectedSlots →
      (a.flow.table j).combinedRate ≤ (a.flow.table i).combinedRate
  printed : a.flow.sampleSlots = a.flow.busySlots
  emitted : a.emitTopSamples now clock
    = ((a.startRound now).sampled (a.roundLines now clock), ((a.roundLines now clock).length : ℤ))

/-- A round of samples takes the best of the live slots, prints those that are not idle, in order,
and counts the lines the spool took. -/
theorem samplesTop (a : CpeAgent) (now : UInt64) (clock : FlowSlot → Option WallClock)
    (hdelta : ∀ i, (a.flow.table i).bytesUpDelta.toNat < 2 ^ 63 ∧
      (a.flow.table i).bytesDownDelta.toNat < 2 ^ 63) : a.SamplesTop now clock where
  length := CpeFlowState.length_selectedSlots
  nodup := CpeFlowState.nodup_selectedSlots
  live i hi := CpeFlowState.mem_liveSlots.mp (CpeFlowState.isTop_selectedSlots.mem hi)
  sorted := by
    obtain ⟨rest, -, hsorted, -⟩ := a.flow.isTop_selectedSlots
    exact hsorted
  best i hi j hj hused halive hnot := by
    obtain ⟨rest, hperm, -, hbest⟩ := a.flow.isTop_selectedSlots
    have hmem := hperm.symm.subset (CpeFlowState.mem_liveSlots.mpr ⟨hj, hused, halive⟩)
    exact hbest i hi j ((List.mem_append.mp hmem).resolve_left hnot)
  printed := CpeFlowState.sampleSlots_eq_busySlots hdelta
  emitted := by
    rw [emitTopSamples, roundLines, startRound, CpeFlowState.sampleSlots_eq_busySlots hdelta]
    cases hdue : a.flow.sampleDue now with
    | false =>
      rw [if_neg Bool.false_ne_true, if_neg Bool.false_ne_true, if_neg (by simp), sampled_nil]
      rfl
    | true =>
      rw [if_pos rfl, if_pos rfl]
      by_cases h : a.Spools
      · have hround : CpeAgent.Spools
            { a with flow := { a.flow with lastSampleMs := now } } := h
        rw [foldl_emitSample_of_spools clock hround, if_pos ⟨rfl, h⟩, zero_add]
        rfl
      · have hround : ¬ CpeAgent.Spools
            { a with flow := { a.flow with lastSampleMs := now } } := h
        rw [foldl_emitSample_of_not_spools clock hround, if_neg fun hboth ↦ h hboth.2,
          sampled_nil]
        rfl

def oneFlowAgent : CpeAgent :=
  { create with flow := { cpeFlowStateInit with
    table := fun i ↦ if i = 0 then
      { CpeFlowEntry.zero with
        used := true
        alive := true
        bytesUpDelta := 1500
        rateUpBps := 12000 }
      else CpeFlowEntry.zero } }

theorem samplesTop_oneFlow : oneFlowAgent.SamplesTop 5000 fun _ ↦ none := by
  refine samplesTop oneFlowAgent 5000 _ fun i ↦ ?_
  by_cases hi : i = 0
  · subst hi
    decide
  · have hslot : oneFlowAgent.flow.table i = CpeFlowEntry.zero := if_neg hi
    rw [hslot]
    decide

end CpeAgent

end NetForensics
