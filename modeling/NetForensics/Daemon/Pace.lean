import NetForensics.Daemon.Signals

/-!
# The pace of the loop that sleeps

Between two samples the loop sleeps as long as is configured at the first of them, to the
millisecond, in slices of at most 200 ms. After each slice it serves the control socket and the flow
table. A limit on the number of samples is met exactly, unless there is a signal to stop first, and
after such a signal the loop ends within nine steps of its own, wherever it stands.
-/

namespace NetForensics

namespace LoopEvent

def sleptMs : LoopEvent → ℕ
  | .slept ms => ms.toNat
  | _ => 0

def isSlice : LoopEvent → Bool
  | .slice => true
  | _ => false

def isSignal : LoopEvent → Bool
  | .hup | .stop => true
  | _ => false

end LoopEvent

def sleptIn (tr : List LoopEvent) : ℕ := (tr.map LoopEvent.sleptMs).sum

def slicesIn (tr : List LoopEvent) : ℕ := tr.countP LoopEvent.isSlice

def samplesIn (tr : List LoopEvent) : ℕ := tr.countP LoopEvent.isSample

theorem toNat_sliceOf (left : UInt32) : (sliceOf left).toNat = min 200 left.toNat := by
  rw [sliceOf]
  split_ifs with h
  · rw [UInt32.lt_iff_toNat_lt] at h
    exact (min_eq_left h.le).symm
  · rw [UInt32.not_lt, UInt32.le_iff_toNat_le] at h
    exact (min_eq_right h).symm

theorem toNat_sub_sliceOf (left : UInt32) :
    (left - sliceOf left).toNat = left.toNat - min 200 left.toNat := by
  rw [UInt32.toNat_sub_of_le, toNat_sliceOf]
  rw [UInt32.le_iff_toNat_le, toNat_sliceOf]
  exact min_le_right _ _

/-! ## The steps of a turn -/

def TurnPc.next (hup : Bool) : TurnPc → Option TurnPc
  | .check => some (if hup then .take else .sample)
  | .take => some .reload
  | .reload => some .sample
  | .sample => some .tcp
  | .tcp => some .poll
  | .poll => some .drain
  | .drain => none

theorem LoopState.turnStep_next (opts : CpeAgentRunOpts) (serves : Bool) (env : LoopEnv)
    (s : LoopState) (t : TurnPc) :
    (s.turnStep opts serves env t).2.1 = t.next s.hup ∧
      (s.turnStep opts serves env t).1.stop = s.stop ∧
      (s.turnStep opts serves env t).1.ticks = if t = .drain then s.ticks + 1 else s.ticks := by
  cases t with
  | tcp =>
    rw [turnStep]
    split <;> exact ⟨rfl, rfl, rfl⟩
  | check | take | reload | sample | poll | drain => exact ⟨rfl, rfl, rfl⟩

theorem LoopState.turnStep_event {opts : CpeAgentRunOpts} {serves : Bool} {env : LoopEnv}
    {s : LoopState} {t : TurnPc} {e : LoopEvent}
    (h : (s.turnStep opts serves env t).2.2 = some e) :
    (t = .sample ∧ e = .sample s.host.agent.cfg.loopInterval) ∨
      (t = .reload ∧ ∃ file rc, e = .reload file rc) := by
  cases t with
  | sample => exact .inl ⟨rfl, (Option.some_inj.mp h).symm⟩
  | reload => exact .inr ⟨rfl, _, _, (Option.some_inj.mp h).symm⟩
  | tcp =>
    rw [turnStep] at h
    split at h <;> exact absurd h (by simp)
  | check | take | poll | drain => exact absurd h (by simp [turnStep])

theorem LoopState.turnStep_quiet (opts : CpeAgentRunOpts) (serves : Bool) (env : LoopEnv)
    (s : LoopState) (t : TurnPc) :
    sleptIn (s.turnStep opts serves env t).2.2.toList = 0 ∧
      slicesIn (s.turnStep opts serves env t).2.2.toList = 0 := by
  cases he : (s.turnStep opts serves env t).2.2 with
  | none => exact ⟨rfl, rfl⟩
  | some e =>
    rcases turnStep_event he with ⟨-, rfl⟩ | ⟨-, file, rc, rfl⟩ <;> exact ⟨rfl, rfl⟩

namespace PollLoop

/-! ## Between two samples -/

/-- In `k` slices of an interval of `ms` milliseconds the loop has slept for `slept` of them, and
`left` are left. -/
structure Sliced (ms slept k left : ℕ) : Prop where
  left_eq : left = ms - 200 * k
  add_eq : slept + left = ms
  lt : 200 * k < ms + 200

theorem Sliced.next {ms slept k left : ℕ} (h : Sliced ms slept k left) (hleft : 0 < left) :
    Sliced ms (slept + min 200 left) (k + 1) (left - min 200 left) := by
  obtain ⟨rfl, hadd, hlt⟩ := h
  constructor <;> omega

theorem Sliced.all {ms slept k : ℕ} (h : Sliced ms slept k 0) :
    slept = ms ∧ k = (ms + 199) / 200 := by
  obtain ⟨hleft, hadd, hlt⟩ := h
  constructor <;> omega

theorem sliced_zero (ms : ℕ) : Sliced ms 0 0 ms := ⟨rfl, Nat.zero_add ms, by omega⟩

/-- What has been slept since a sample with an interval of `ms`, and in how many slices, by where
the loop stands. Only after a signal to stop need it not be all of it. -/
def Rests (s : PollLoop) (ms slept k : ℕ) : Prop :=
  match s.pc with
  | .first => False
  | .top => s.stop = true ∨ slept = ms ∧ k = (ms + 199) / 200
  | .turn t =>
    if t ∈ [.check, .take, .reload, .sample] then slept = ms ∧ k = (ms + 199) / 200
    else slept = 0 ∧ k = 0 ∧ s.interval.toNat = ms
  | .wait left => s.stop = true ∨ Sliced ms slept k left.toNat
  | .sleep left => s.stop = true ∨ 0 < left.toNat ∧ Sliced ms slept k left.toNat
  | .slice left => s.stop = true ∨
      0 < left.toNat ∧ ∃ before, Sliced ms before k left.toNat ∧ slept = before + min 200 left.toNat
  | .done => True

/-- A turn has nothing to show for the time it takes. -/
theorem rests_turn (opts : CpeAgentRunOpts) (l l' : LoopState) {t : TurnPc} {interval : UInt32}
    {ms slept k : ℕ} (h : Rests ⟨l, .turn t, interval⟩ ms slept k) (ht : t ≠ .sample) :
    Rests ⟨l', afterTurn opts l' interval (t.next l.hup), interval⟩ ms slept k := by
  cases t with
  | check =>
    rw [TurnPc.next]
    split <;> exact h
  | sample => exact absurd rfl ht
  | drain =>
    obtain ⟨rfl, rfl, rfl⟩ : slept = 0 ∧ k = 0 ∧ interval.toNat = ms := h
    rw [TurnPc.next, afterTurn]
    split
    · trivial
    · exact .inr (sliced_zero _)
  | take | reload | tcp | poll => exact h

theorem rests_step (opts : CpeAgentRunOpts) (s : PollLoop) (i : PollInput) {ms slept k : ℕ}
    (h : s.Rests ms slept k) (he : ∀ e ∈ (step opts s i).2, e.isSample = false) :
    (step opts s i).1.Rests ms (slept + sleptIn (step opts s i).2.toList)
      (k + slicesIn (step opts s i).2.toList) := by
  obtain ⟨l, pc, interval⟩ := s
  cases i with
  | hup => exact h
  | stop =>
    cases pc with
    | first => exact h.elim
    | top | wait left | sleep left | slice left => exact .inl rfl
    | turn t => exact h
    | done => trivial
  | step env =>
    cases pc with
    | first => exact h.elim
    | top =>
      cases hstop : l.stop with
      | true =>
        rw [step]
        simp only [hstop, if_true]
        trivial
      | false =>
        have hall := Or.resolve_left h (by simp [hstop])
        rw [step]
        simp only [hstop, Bool.false_eq_true, if_false]
        exact hall
    | turn t =>
      have hnext := (l.turnStep_next opts true env t).1
      by_cases ht : t = .sample
      · subst ht
        exact absurd (he _ rfl) (by simp [LoopEvent.isSample])
      · obtain ⟨hslept, hslices⟩ := l.turnStep_quiet opts true env t
        have hkept := rests_turn opts l (l.turnStep opts true env t).1 h ht
        rw [step]
        dsimp only
        rw [hslept, hslices, hnext, if_neg ht]
        exact hkept
    | wait left =>
      rw [step]
      dsimp only
      split
      · rename_i hmore
        exact .inr ⟨UInt32.lt_iff_toNat_lt.mp hmore.1, Or.resolve_left h (by simp [hmore.2])⟩
      · rename_i hmore
        cases hstop : l.stop with
        | true => exact .inl hstop
        | false =>
          have hzero : left.toNat = 0 := by
            by_contra hne
            exact hmore ⟨UInt32.lt_iff_toNat_lt.mpr (Nat.pos_of_ne_zero hne), hstop⟩
          have hsliced := Or.resolve_left h (by simp [hstop])
          exact .inr (hzero ▸ hsliced).all
    | sleep left =>
      rcases h with hstop | ⟨hleft, hsliced⟩
      · exact .inl hstop
      · refine .inr ⟨hleft, slept, hsliced, ?_⟩
        rw [← toNat_sliceOf]
        rfl
    | slice left =>
      have hflags := l.sliceStep_flags env
      rcases h with hstop | ⟨hleft, before, hsliced, hslept⟩
      · exact .inl (hflags.2.1.trans hstop)
      · refine .inr ?_
        rw [toNat_sub_sliceOf, hslept]
        exact hsliced.next hleft
    | done => trivial

/-- A sample is taken in a turn, and from then on the loop rests. -/
theorem rests_of_sample {opts : CpeAgentRunOpts} {s : PollLoop} {i : PollInput} {ms : UInt32}
    (h : (step opts s i).2 = some (.sample ms)) :
    s.pc = .turn .sample ∧ (step opts s i).1.Rests ms.toNat 0 0 := by
  obtain ⟨l, pc, interval⟩ := s
  cases i with
  | hup | stop => exact absurd h (by simp [step])
  | step env =>
    cases pc with
    | first | top | wait left | sleep left | slice left | done => exact absurd h (by simp [step])
    | turn t =>
      rcases LoopState.turnStep_event h with ⟨rfl, hms⟩ | ⟨-, file, rc, hreload⟩
      · obtain rfl := LoopEvent.sample.inj hms
        exact ⟨rfl, rfl, rfl, rfl⟩
      · exact absurd hreload (by simp)

theorem slept_le {opts : CpeAgentRunOpts} {s : PollLoop} {i : PollInput} {ms : UInt32}
    (h : (step opts s i).2 = some (.slept ms)) : ms.toNat ≤ 200 := by
  obtain ⟨l, pc, interval⟩ := s
  cases i with
  | hup | stop => exact absurd h (by simp [step])
  | step env =>
    cases pc with
    | top | wait left | slice left | done => exact absurd h (by simp [step])
    | first =>
      obtain rfl := LoopEvent.slept.inj (Option.some_inj.mp h)
      decide
    | sleep left =>
      obtain rfl := LoopEvent.slept.inj (Option.some_inj.mp h)
      rw [toNat_sliceOf]
      exact min_le_left _ _
    | turn t =>
      rcases LoopState.turnStep_event h with ⟨-, hms⟩ | ⟨-, file, rc, hreload⟩
      · exact absurd hms (by simp)
      · exact absurd hreload (by simp)

theorem rests_run (opts : CpeAgentRunOpts) (host : IpcState) (inputs : List PollInput)
    (ms : UInt32) :
    ∀ pre mid, (run opts host inputs).2 = pre ++ .sample ms :: mid →
      (∀ e ∈ mid, e.isSample = false) →
      (run opts host inputs).1.Rests ms.toNat (sleptIn mid) (slicesIn mid) := by
  induction inputs using List.reverseRecOn with
  | nil => exact fun pre mid h ↦ absurd h (by simp [run, tracedRun])
  | append_singleton inputs i ih =>
    have hrests : ∀ mid, (run opts host inputs).1.Rests ms.toNat (sleptIn mid) (slicesIn mid) →
        (∀ e ∈ (step opts (run opts host inputs).1 i).2, e.isSample = false) → _ :=
      fun mid ↦ rests_step opts (run opts host inputs).1 i
    rw [run, tracedRun_concat, ← run]
    cases he : (step opts (run opts host inputs).1 i).2 with
    | none =>
      rw [Option.toList_none, List.append_nil]
      intro pre mid heq hnone
      have hkept := hrests mid (ih pre mid heq hnone) (by rw [he]; simp)
      rw [he] at hkept
      exact hkept
    | some e =>
      refine since_concat (R := fun mid ↦ (∀ e ∈ mid, e.isSample = false) →
        (run opts host inputs).1.Rests ms.toNat (sleptIn mid) (slicesIn mid)) ih ?_ ?_
      · rintro rfl -
        exact (rests_of_sample he).2
      · intro mid hmid hnone
        have hkept := hrests mid (hmid fun e h ↦ hnone e (List.mem_append_left _ h))
        rw [he] at hkept
        have hlast := hkept fun e h ↦ hnone e
          (List.mem_append_right _ (List.mem_singleton.mpr (Option.some_inj.mp h).symm))
        rw [sleptIn, List.map_append, List.sum_append, slicesIn, List.countP_append]
        exact hlast

/-! ## A poll after each slice -/

/-- Where the loop has not been yet, nothing has been sampled. -/
theorem first_of_step {opts : CpeAgentRunOpts} {s : PollLoop} {i : PollInput}
    (h : (step opts s i).1.pc = .first) :
    s.pc = .first ∧ ∀ e ∈ (step opts s i).2, e.isSample = false := by
  obtain ⟨l, pc, interval⟩ := s
  cases i with
  | hup => exact ⟨h, by simp [step, LoopEvent.isSample]⟩
  | stop => cases pc <;> cases h
  | step env =>
    cases pc with
    | first | sleep left | slice left | done => cases h
    | top | wait left =>
      rw [step] at h
      dsimp only at h
      split at h <;> cases h
    | turn t =>
      rw [step] at h
      dsimp only [afterTurn] at h
      split at h
      · cases h
      · split at h <;> cases h

theorem first_run {opts : CpeAgentRunOpts} {host : IpcState} {inputs : List PollInput}
    (h : (run opts host inputs).1.pc = .first) :
    ∀ e ∈ (run opts host inputs).2, e.isSample = false := by
  induction inputs using List.reverseRecOn with
  | nil => exact fun e he ↦ absurd he List.not_mem_nil
  | append_singleton inputs i ih =>
    rw [run, tracedRun_concat, ← run] at h ⊢
    obtain ⟨hbefore, hquiet⟩ := first_of_step h
    intro e he
    rcases List.mem_append.mp he with he | he
    · exact ih hbefore e he
    · exact hquiet e (Option.mem_toList.mp he)

theorem slice_of_slept {opts : CpeAgentRunOpts} {s : PollLoop} {i : PollInput} {ms : UInt32}
    (h : (step opts s i).2 = some (.slept ms)) (hpc : s.pc ≠ .first) :
    ∃ left, (step opts s i).1.pc = .slice left := by
  obtain ⟨l, pc, interval⟩ := s
  cases i with
  | hup | stop => exact absurd h (by simp [step])
  | step env =>
    cases pc with
    | first => exact absurd rfl hpc
    | top | wait left | slice left | done => exact absurd h (by simp [step])
    | sleep left => exact ⟨left, rfl⟩
    | turn t =>
      rcases LoopState.turnStep_event h with ⟨-, hms⟩ | ⟨-, file, rc, hreload⟩
      · exact absurd hms (by simp)
      · exact absurd hreload (by simp)

theorem step_slice (opts : CpeAgentRunOpts) {s : PollLoop} (i : PollInput) {left : UInt32}
    (hpc : s.pc = .slice left) :
    ∃ e, (step opts s i).2 = some e ∧
      (e = .slice ∨ e.isSignal = true ∧ (step opts s i).1.pc = .slice left) := by
  obtain ⟨l, pc, interval⟩ := s
  obtain rfl : pc = .slice left := hpc
  cases i with
  | hup => exact ⟨.hup, rfl, .inr ⟨rfl, rfl⟩⟩
  | stop => exact ⟨.stop, rfl, .inr ⟨rfl, rfl⟩⟩
  | step env => exact ⟨.slice, rfl, .inl rfl⟩

/-- As long as only signals have come since, the poll is due. -/
theorem slice_run (opts : CpeAgentRunOpts) (host : IpcState) (inputs : List PollInput)
    (ms : UInt32) :
    ∀ pre mid, (run opts host inputs).2 = pre ++ .slept ms :: mid →
      (∃ e ∈ (run opts host inputs).2, e.isSample = true) → (∀ e ∈ mid, e.isSignal = true) →
      ∃ left, (run opts host inputs).1.pc = .slice left := by
  induction inputs using List.reverseRecOn with
  | nil => exact fun pre mid h ↦ absurd h (by simp [run, tracedRun])
  | append_singleton inputs i ih =>
    rw [run, tracedRun_concat, ← run]
    cases he : (step opts (run opts host inputs).1 i).2 with
    | none =>
      rw [Option.toList_none, List.append_nil]
      intro pre mid heq hsample hsignals
      obtain ⟨left, hpc⟩ := ih pre mid heq hsample hsignals
      obtain ⟨e, hsome, -⟩ := step_slice opts i hpc
      exact absurd (he.symm.trans hsome) (by simp)
    | some e =>
      refine since_concat (R := fun mid ↦ (∃ e ∈ (run opts host inputs).2, e.isSample = true) →
        (∀ e ∈ mid, e.isSignal = true) → ∃ left, (run opts host inputs).1.pc = .slice left) ih ?_ ?_
      · rintro rfl ⟨d, hd, hsample⟩ -
        refine slice_of_slept he fun hfirst ↦ ?_
        rcases List.mem_append.mp hd with hd | hd
        · exact absurd (first_run hfirst d hd) (by simp [hsample])
        · rw [List.mem_singleton.mp hd] at hsample
          exact absurd hsample Bool.false_ne_true
      · rintro mid hmid ⟨d, hd, hsample⟩ hsignals
        have hlast := hsignals e (List.mem_append_right _ List.mem_cons_self)
        have hbefore : d ∈ (run opts host inputs).2 := by
          rcases List.mem_append.mp hd with hd | hd
          · exact hd
          · rw [List.mem_singleton.mp hd] at hsample
            cases e <;> simp [LoopEvent.isSample, LoopEvent.isSignal] at hsample hlast
        obtain ⟨left, hpc⟩ := hmid ⟨d, hbefore, hsample⟩ fun e h ↦
          hsignals e (List.mem_append_left _ h)
        obtain ⟨e', hsome, hslice | ⟨-, hnext⟩⟩ := step_slice opts i hpc
        · obtain rfl := Option.some_inj.mp (he.symm.trans hsome)
          rw [hslice] at hlast
          exact absurd hlast Bool.false_ne_true
        · exact ⟨left, hnext⟩

/-- Between two samples the loop sleeps as long as is configured, in as few slices as there can be;
and once there has been a sample, nothing but signals comes between a sleep and its poll. -/
structure Paced (tr : List LoopEvent) : Prop where
  rests : ∀ pre mid post ms ms', tr = pre ++ .sample ms :: (mid ++ .sample ms' :: post) →
    (∀ e ∈ mid, e.isSample = false) →
    sleptIn mid = ms.toNat ∧ slicesIn mid = (ms.toNat + 199) / 200
  slices : ∀ ms, .slept ms ∈ tr → ms.toNat ≤ 200
  polls : ∀ pre mid post ms e, tr = pre ++ .slept ms :: (mid ++ e :: post) →
    (∃ d ∈ pre, d.isSample = true) → (∀ d ∈ mid, d.isSignal = true) → e.isSignal = false →
    e = .slice

theorem paced_run (opts : CpeAgentRunOpts) (host : IpcState) (inputs : List PollInput) :
    Paced (run opts host inputs).2 where
  rests := by
    intro pre mid post ms ms' heq hnone
    rw [← List.cons_append, ← List.append_assoc] at heq
    obtain ⟨is, i, hpre, hsample⟩ := exists_of_trace_eq heq
    obtain ⟨hpc, -⟩ := rests_of_sample hsample
    have hrests := rests_run opts host is ms pre mid hpre hnone
    rw [Rests, run, hpc] at hrests
    exact hrests
  slices := by
    intro ms hmem
    obtain ⟨pre, post, heq⟩ := List.append_of_mem hmem
    obtain ⟨is, i, -, hslept⟩ := exists_of_trace_eq heq
    exact slept_le hslept
  polls := by
    rintro pre mid post ms e heq ⟨d, hd, hsample⟩ hsignals he
    rw [← List.cons_append, ← List.append_assoc] at heq
    obtain ⟨is, i, hpre, hstep⟩ := exists_of_trace_eq heq
    have hsampled : ∃ e ∈ (run opts host is).2, e.isSample = true :=
      ⟨d, hpre.symm ▸ List.mem_append_left _ hd, hsample⟩
    obtain ⟨left, hpc⟩ := slice_run opts host is ms pre mid hpre hsampled hsignals
    obtain ⟨e', hsome, hslice | ⟨hsignal, -⟩⟩ := step_slice opts i hpc
    · exact (Option.some_inj.mp (hstep.symm.trans hsome)).trans hslice
    · obtain rfl := Option.some_inj.mp (hstep.symm.trans hsome)
      exact absurd hsignal (by simp [he])

/-! ## The limit -/

/-- There have been `n` samples, and the limit is not passed: it is reached only where the loop
ends. -/
structure Counted (opts : CpeAgentRunOpts) (s : PollLoop) (n : ℕ) : Prop where
  count : n = s.ticks.toNat +
    if s.pc ∈ [.turn .tcp, .turn .poll, .turn .drain] then 1 else 0
  lt : s.pc ≠ .done → s.ticks.toNat < opts.maxTicks.toNat
  done : s.pc = .done → s.ticks.toNat ≤ opts.maxTicks.toNat ∧
    (s.stop = false → s.ticks = opts.maxTicks)

theorem Counted.going {opts : CpeAgentRunOpts} {s : PollLoop} {n : ℕ} (hpc : s.pc ≠ .done)
    (hcount : n = s.ticks.toNat + if s.pc ∈ [.turn .tcp, .turn .poll, .turn .drain] then 1 else 0)
    (hlt : s.ticks.toNat < opts.maxTicks.toNat) : Counted opts s n :=
  ⟨hcount, fun _ ↦ hlt, fun h ↦ absurd h hpc⟩

theorem Counted.le {opts : CpeAgentRunOpts} {s : PollLoop} {n : ℕ} (h : Counted opts s n) :
    n ≤ opts.maxTicks.toNat := by
  obtain ⟨rfl, hlt, hdone⟩ := h
  by_cases hpc : s.pc = .done
  · rw [hpc, if_neg (by decide)]
    exact (hdone hpc).1
  · have hticks := hlt hpc
    split <;> omega

/-- At the end of a turn the sample counts, and the limit is looked at. -/
theorem counted_drain {opts : CpeAgentRunOpts} (hmax : 0 < opts.maxTicks) {l : LoopState}
    {env : LoopEnv} {interval : UInt32} (hlt : l.ticks.toNat < opts.maxTicks.toNat) :
    Counted opts (PollLoop.step opts ⟨l, .turn .drain, interval⟩ (.step env)).1
      (l.ticks.toNat + 1) := by
  have hticks : (l.ticks + 1).toNat = l.ticks.toNat + 1 := by
    have hmod := opts.maxTicks.toNat_lt
    rw [UInt32.toNat_add, UInt32.toNat_one, Nat.mod_eq_of_lt (by omega)]
  rw [PollLoop.step]
  dsimp only [LoopState.turnStep]
  rw [afterTurn]
  split
  · rename_i hfinished
    have hle := UInt32.le_iff_toNat_le.mp hfinished.2
    have heq : (l.ticks + 1).toNat = opts.maxTicks.toNat := le_antisymm (by omega) hle
    exact ⟨by rw [hticks]; rfl, fun h ↦ absurd rfl h,
      fun _ ↦ ⟨heq.le, fun _ ↦ UInt32.toNat_inj.mp heq⟩⟩
  · rename_i hfinished
    refine .going PollPc.noConfusion (by rw [hticks]; rfl) ?_
    by_contra hle
    exact hfinished ⟨hmax, UInt32.le_iff_toNat_le.mpr (not_lt.mp hle)⟩

theorem Counted.step {opts : CpeAgentRunOpts} (hmax : 0 < opts.maxTicks) {s : PollLoop} {n : ℕ}
    (h : Counted opts s n) (i : PollInput) :
    Counted opts (PollLoop.step opts s i).1 (n + samplesIn (PollLoop.step opts s i).2.toList) := by
  obtain ⟨l, pc, interval⟩ := s
  obtain ⟨rfl, hlt, hdone⟩ := h
  cases i with
  | hup => exact ⟨rfl, hlt, hdone⟩
  | stop =>
    cases pc with
    | done =>
      exact ⟨rfl, hlt, fun h ↦ ⟨(hdone h).1, fun hgo ↦ absurd hgo (by simp [PollLoop.step])⟩⟩
    | first | top | wait left | sleep left | slice left | turn t =>
      exact .going PollPc.noConfusion rfl (hlt (by simp))
  | step env =>
    cases pc with
    | done => exact ⟨rfl, hlt, hdone⟩
    | first | sleep left => exact .going PollPc.noConfusion rfl (hlt (by simp))
    | slice left =>
      have hticks := (l.sliceStep_flags env).2.2
      refine .going PollPc.noConfusion ?_ ?_
      · rw [PollLoop.step]
        dsimp only
        rw [hticks]
        rfl
      · exact (congrArg UInt32.toNat hticks).trans_lt (hlt (by simp))
    | top =>
      rw [PollLoop.step]
      dsimp only
      cases hstop : l.stop with
      | true =>
        exact ⟨rfl, fun h ↦ absurd rfl h,
          fun _ ↦ ⟨(hlt (by simp)).le, fun h ↦ absurd (hstop.symm.trans h) (by decide)⟩⟩
      | false => exact .going PollPc.noConfusion rfl (hlt (by simp))
    | wait left =>
      rw [PollLoop.step]
      dsimp only
      split
      · exact .going PollPc.noConfusion rfl (hlt (by simp))
      · exact .going PollPc.noConfusion rfl (hlt (by simp))
    | turn t =>
      have hbefore : l.ticks.toNat < opts.maxTicks.toNat := hlt (by simp)
      cases t with
      | drain => exact counted_drain hmax hbefore
      | tcp =>
        rw [PollLoop.step]
        dsimp only
        rw [LoopState.turnStep]
        split <;> exact .going PollPc.noConfusion rfl hbefore
      | check =>
        obtain ⟨host, hup, stop, ticks⟩ := l
        cases hup <;> exact .going PollPc.noConfusion rfl hbefore
      | take | reload | sample | poll => exact .going PollPc.noConfusion rfl hbefore

theorem counted_run {opts : CpeAgentRunOpts} (hmax : 0 < opts.maxTicks) (host : IpcState)
    (inputs : List PollInput) :
    Counted opts (run opts host inputs).1 (samplesIn (run opts host inputs).2) := by
  induction inputs using List.reverseRecOn with
  | nil => exact .going PollPc.noConfusion rfl (UInt32.lt_iff_toNat_lt.mp hmax)
  | append_singleton inputs i ih =>
    rw [run, tracedRun_concat, ← run, samplesIn, List.countP_append]
    exact ih.step hmax i

/-! ## The end -/

/-- How many steps there can still be after a signal to stop. -/
def rank (s : PollLoop) : ℕ :=
  match s.pc with
  | .done => 0
  | .top => 1
  | .first | .wait _ => 2
  | .slice _ | .turn .drain => 3
  | .sleep _ | .turn .poll => 4
  | .turn .tcp => 5
  | .turn .sample => 6
  | .turn .reload => 7
  | .turn .take => 8
  | .turn .check => 9

theorem rank_le (s : PollLoop) : s.rank ≤ 9 := by
  obtain ⟨l, pc, interval⟩ := s
  cases pc with
  | turn t => cases t <;> exact Nat.le_of_ble_eq_true rfl
  | first | top | wait left | sleep left | slice left | done => exact Nat.le_of_ble_eq_true rfl

theorem pc_of_rank {s : PollLoop} (h : s.rank = 0) : s.pc = .done := by
  obtain ⟨l, pc, interval⟩ := s
  cases pc with
  | turn t => cases t <;> exact absurd h (Nat.succ_ne_zero _)
  | first | top | wait left | sleep left | slice left => exact absurd h (Nat.succ_ne_zero _)
  | done => rfl

def isStep : PollInput → Bool
  | .step _ => true
  | _ => false

theorem rank_step (opts : CpeAgentRunOpts) {s : PollLoop} (hstop : s.stop = true) (i : PollInput) :
    (step opts s i).1.stop = true ∧ (step opts s i).1.rank ≤ s.rank - (isStep i).toNat := by
  obtain ⟨l, pc, interval⟩ := s
  cases i with
  | hup => exact ⟨hstop, le_rfl⟩
  | stop =>
    refine ⟨rfl, ?_⟩
    cases pc with
    | first => exact (by decide : 1 ≤ 2)
    | sleep left => exact (by decide : 3 ≤ 4)
    | top | wait left | slice left | turn t | done => exact le_rfl
  | step env =>
    have hl : l.stop = true := hstop
    cases pc with
    | first | sleep left | done => exact ⟨hstop, le_rfl⟩
    | top =>
      rw [step]
      dsimp only
      rw [if_pos hl]
      exact ⟨hl, le_rfl⟩
    | wait left =>
      rw [step]
      dsimp only
      rw [if_neg fun h ↦ absurd (hl.symm.trans h.2) (by decide)]
      exact ⟨hl, le_rfl⟩
    | slice left => exact ⟨(l.sliceStep_flags env).2.1.trans hl, le_rfl⟩
    | turn t =>
      obtain ⟨hnext, hkept, -⟩ := l.turnStep_next opts true env t
      refine ⟨hkept.trans hl, ?_⟩
      rw [step]
      dsimp only
      rw [hnext]
      cases t with
      | check =>
        cases l.hup with
        | true => exact le_rfl
        | false => exact (by decide : 6 ≤ 8)
      | take | reload | sample | tcp | poll => exact le_rfl
      | drain =>
        rw [TurnPc.next, afterTurn]
        split
        · exact Nat.zero_le _
        · exact le_rfl

theorem done_of_steps (opts : CpeAgentRunOpts) {s : PollLoop} (hstop : s.stop = true)
    (more : List PollInput) :
    (tracedRun (step opts) s more).1.rank ≤ s.rank - more.countP isStep ∧
      (tracedRun (step opts) s more).1.stop = true := by
  induction more using List.reverseRecOn with
  | nil => exact ⟨le_rfl, hstop⟩
  | append_singleton more i ih =>
    obtain ⟨hle, hkept⟩ := ih
    obtain ⟨hkept', hrank⟩ := rank_step opts hkept i
    rw [tracedRun_concat, List.countP_append]
    refine ⟨?_, hkept'⟩
    have hone : List.countP isStep [i] = (isStep i).toNat := by
      cases h : isStep i <;> simp [h]
    dsimp only
    omega

theorem stop_of_mem {opts : CpeAgentRunOpts} {host : IpcState} {inputs : List PollInput}
    (h : .stop ∈ (run opts host inputs).2) : (run opts host inputs).1.stop = true := by
  obtain ⟨pre, post, heq⟩ := List.append_of_mem h
  exact ((Attention.kept_run (run_attention opts host inputs)).stops pre post heq).stop

/-- Whatever happens to the loop that sleeps: between two samples it sleeps as long as is configured
at the first, in slices of at most 200 ms, as few of them as there can be, and each with its poll
right behind it. With a limit there are no
more samples than that, and just as many if it ends without a signal to stop. And once there is such
a signal, nine more steps are enough for it to end. -/
theorem run_paced (opts : CpeAgentRunOpts) (host : IpcState) (inputs : List PollInput) :
    let r := run opts host inputs
    Paced r.2 ∧
      (0 < opts.maxTicks → samplesIn r.2 ≤ opts.maxTicks.toNat ∧
        (r.1.pc = .done → r.1.stop = false → samplesIn r.2 = opts.maxTicks.toNat)) ∧
      (.stop ∈ r.2 → ∀ more, 9 ≤ more.countP isStep →
        (run opts host (inputs ++ more)).1.pc = .done) := by
  intro r
  refine ⟨paced_run opts host inputs, fun hmax ↦ ?_, fun hmem more hsteps ↦ ?_⟩
  · have hcounted := counted_run hmax host inputs
    refine ⟨hcounted.le, fun hpc hstop ↦ ?_⟩
    have hcount := hcounted.count
    rw [hpc, if_neg (by decide), (hcounted.done hpc).2 hstop] at hcount
    exact hcount
  · have hend := (done_of_steps opts (stop_of_mem hmem) more).1
    have hle := rank_le (run opts host inputs).1
    rw [run, tracedRun_append, ← run]
    exact pc_of_rank (by omega)

end PollLoop

end NetForensics
