import NetForensics.Daemon.Loop

/-!
# Signals

For its signals a loop is a small machine (`Attention`): two flags, and whether it is between turns,
about to look at `g_hup`, to reload, to sample, or to serve a slice. Both loops are runs of it
(`PollLoop.move_step`, `UvLoop.move_step`), so what holds of its traces holds of theirs.

A `SIGHUP` is never lost: from there on at most one sample is taken before there has been a reload.
Several of them may share a reload, and there is no reload without one. After a signal to stop there
is at most one more sample or one more slice.
-/

namespace NetForensics

/-! ## Traced runs -/

section Traced

variable {σ ι ε : Type}

/-- A run of a machine that may show something at a step: the state it ends in, and what is seen. -/
def tracedRun (step : σ → ι → σ × Option ε) (s : σ) (is : List ι) : σ × List ε :=
  is.foldl (fun r i ↦ ((step r.1 i).1, r.2 ++ (step r.1 i).2.toList)) (s, [])

theorem tracedRun_concat (step : σ → ι → σ × Option ε) (s : σ) (is : List ι) (i : ι) :
    tracedRun step s (is ++ [i]) = ((step (tracedRun step s is).1 i).1,
      (tracedRun step s is).2 ++ (step (tracedRun step s is).1 i).2.toList) := by
  rw [tracedRun, List.foldl_append]
  rfl

theorem tracedRun_append (step : σ → ι → σ × Option ε) (s : σ) (is js : List ι) :
    (tracedRun step s (is ++ js)).1 = (tracedRun step (tracedRun step s is).1 js).1 := by
  induction js using List.reverseRecOn with
  | nil => rw [List.append_nil]; rfl
  | append_singleton js i ih => rw [← List.append_assoc, tracedRun_concat, tracedRun_concat, ih]

theorem tracedRun_invariant {step : σ → ι → σ × Option ε} {P : σ → Prop}
    (hstep : ∀ s i, P s → P (step s i).1) {s : σ} (h : P s) (is : List ι) :
    P (tracedRun step s is).1 :=
  foldl_invariant (P := fun r : σ × List ε ↦ P r.1) (fun r i ↦ hstep r.1 i) h is

/-- What a run shows determines a value, if every step says how. -/
theorem foldl_trace {β : Type} {step : σ → ι → σ × Option ε} {f : σ → β} {g : β → ε → β}
    (h : ∀ s i, f (step s i).1 = (step s i).2.toList.foldl g (f s)) (s : σ) (is : List ι) :
    f (tracedRun step s is).1 = (tracedRun step s is).2.foldl g (f s) := by
  induction is using List.reverseRecOn with
  | nil => rfl
  | append_singleton is i ih => rw [tracedRun_concat, List.foldl_append, ← ih, h]

/-- Whatever is seen is seen at some step, after what is seen before it. -/
theorem exists_of_trace_eq {step : σ → ι → σ × Option ε} {s : σ} {is : List ι} {pre post : List ε}
    {e : ε} (h : (tracedRun step s is).2 = pre ++ e :: post) :
    ∃ is' i, (tracedRun step s is').2 = pre ∧ (step (tracedRun step s is').1 i).2 = some e := by
  induction is using List.reverseRecOn generalizing post with
  | nil => exact absurd h (by simp [tracedRun])
  | append_singleton is i ih =>
    rw [tracedRun_concat] at h
    cases hstep : (step (tracedRun step s is).1 i).2 with
    | none =>
      rw [hstep, Option.toList_none, List.append_nil] at h
      exact ih h
    | some e' =>
      rw [hstep, Option.toList_some] at h
      rcases List.eq_nil_or_concat post with rfl | ⟨post, x, rfl⟩
      · obtain ⟨hpre, he⟩ := List.append_inj' h rfl
        obtain rfl := List.head_eq_of_cons_eq he
        exact ⟨is, i, hpre, hstep⟩
      · rw [List.concat_eq_append, ← List.cons_append, ← List.append_assoc] at h
        exact ih (List.append_inj' h rfl).1

/-- What has been seen since an event, when one more is seen. -/
theorem since_concat {tr : List ε} {x e : ε} {R R' : List ε → Prop}
    (h : ∀ pre mid, tr = pre ++ x :: mid → R mid) (hnew : e = x → R' [])
    (hold : ∀ mid, R mid → R' (mid ++ [e])) (pre mid : List ε)
    (heq : tr ++ [e] = pre ++ x :: mid) : R' mid := by
  rcases List.eq_nil_or_concat mid with rfl | ⟨mid, y, rfl⟩
  · exact hnew (List.head_eq_of_cons_eq (List.append_inj' heq rfl).2)
  · rw [List.concat_eq_append, ← List.cons_append, ← List.append_assoc] at heq
    obtain ⟨htr, hy⟩ := List.append_inj' heq rfl
    obtain rfl := List.head_eq_of_cons_eq hy
    exact List.concat_eq_append ▸ hold mid (h pre mid htr)

end Traced

/-! ## The machine -/

namespace LoopEvent

/-- The event is a `SIGHUP`. -/
def isHup : LoopEvent → Bool
  | .hup => true
  | _ => false

def isReload : LoopEvent → Bool
  | .reload _ _ => true
  | _ => false

def isSample : LoopEvent → Bool
  | .sample _ => true
  | _ => false

def isWork : LoopEvent → Bool
  | .sample _ => true
  | .slice => true
  | _ => false

end LoopEvent

/-- Where a loop stands, as far as signals go. -/
inductive Stage where
  | idle
  | check
  | take
  | reload
  | sample
  | slice
  deriving DecidableEq

/-- The flags and the stage. -/
structure Attention where
  hup : Bool
  stop : Bool
  stage : Stage

namespace Attention

/-- One step, with what is seen of it. -/
inductive Move : Attention → Option LoopEvent → Attention → Prop
  | hup (h s : Bool) (st : Stage) : Move ⟨h, s, st⟩ (some .hup) ⟨true, s, st⟩
  | stop (h s : Bool) (st : Stage) : Move ⟨h, s, st⟩ (some .stop) ⟨h, true, st⟩
  | turn (h : Bool) : Move ⟨h, false, .idle⟩ none ⟨h, false, .check⟩
  | work (h : Bool) : Move ⟨h, false, .idle⟩ none ⟨h, false, .slice⟩
  | raised (s : Bool) : Move ⟨true, s, .check⟩ none ⟨true, s, .take⟩
  | lowered (s : Bool) : Move ⟨false, s, .check⟩ none ⟨false, s, .sample⟩
  | take (h s : Bool) : Move ⟨h, s, .take⟩ none ⟨false, s, .reload⟩
  | reload (h s : Bool) (file : LoadedConfig) (rc : ℤ) :
    Move ⟨h, s, .reload⟩ (some (.reload file rc)) ⟨h, s, .sample⟩
  | sample (h s : Bool) (ms : UInt32) : Move ⟨h, s, .sample⟩ (some (.sample ms)) ⟨h, s, .idle⟩
  | slice (h s : Bool) : Move ⟨h, s, .slice⟩ (some .slice) ⟨h, s, .idle⟩
  | rest (a : Attention) : Move a none a
  | slept (a : Attention) (ms : UInt32) : Move a (some (.slept ms)) a

/-- A trace from the start, with the state it leads to. -/
inductive Run : List LoopEvent → Attention → Prop
  | start : Run [] ⟨false, false, .idle⟩
  | move {tr : List LoopEvent} {a b : Attention} {e : Option LoopEvent} (h : Run tr a)
      (hmove : Move a e b) : Run (tr ++ e.toList) b

/-! ## What the flags stand for -/

/-- The number of reloads that are still to come for a `SIGHUP`. -/
def due (a : Attention) : ℕ := a.hup.toNat + if a.stage = .reload then 1 else 0

/-- A `SIGHUP` has not been answered, and there have been `n` samples since. -/
structure Owes (a : Attention) (n : ℕ) : Prop where
  due : a.hup = true ∨ a.stage = .reload
  le : n ≤ 1
  eq_zero : a.stage = .sample → n = 0

/-- There was a signal to stop, and `n` samples and slices since. -/
structure Stops (a : Attention) (n : ℕ) : Prop where
  stop : a.stop = true
  le : n + (if a.stage = .idle then 0 else 1) ≤ 1

/-- The number of events of a kind, in at most one event. -/
def occurs (p : LoopEvent → Bool) (e : Option LoopEvent) : ℕ := e.toList.countP p

theorem due_move {a b : Attention} {e : Option LoopEvent} (h : Move a e b)
    (htake : a.stage = .take → a.hup = true) :
    occurs LoopEvent.isReload e + b.due ≤ occurs LoopEvent.isHup e + a.due := by
  cases h with
  | take h s =>
    obtain rfl : h = true := htake rfl
    simp [occurs, due]
  | hup h s st => cases h <;> simp [occurs, due, LoopEvent.isReload, LoopEvent.isHup]
  | reload h s file rc => simp [occurs, due, LoopEvent.isReload, Nat.add_comm]
  | turn | work | raised | lowered | sample | slice | rest | stop | slept =>
    simp [occurs, due, LoopEvent.isReload, LoopEvent.isHup]

theorem hup_of_take {a b : Attention} {e : Option LoopEvent} (h : Move a e b)
    (htake : a.stage = .take → a.hup = true) : b.stage = .take → b.hup = true := by
  cases h with
  | hup | raised => exact fun _ ↦ rfl
  | stop | rest | slept => exact htake
  | turn | work | lowered | take | reload | sample | slice => exact nofun

theorem owes_move {a b : Attention} {e : LoopEvent} (h : Move a (some e) b) {n : ℕ}
    (howes : a.Owes n) (hreload : e.isReload = false) :
    b.Owes (n + [e].countP LoopEvent.isSample) := by
  cases h with
  | hup h s st => exact ⟨.inl rfl, howes.le, howes.eq_zero⟩
  | stop h s st => exact ⟨howes.due, howes.le, howes.eq_zero⟩
  | reload h s file rc => exact absurd hreload Bool.noConfusion
  | sample h s ms =>
    have hzero := howes.eq_zero rfl
    exact ⟨.inl (howes.due.resolve_right nofun), by simp [hzero, LoopEvent.isSample], nofun⟩
  | slice h s => exact ⟨.inl (howes.due.resolve_right nofun), howes.le, nofun⟩
  | slept a ms => exact ⟨howes.due, howes.le, howes.eq_zero⟩

theorem owes_rest {a b : Attention} (h : Move a none b) {n : ℕ} (howes : a.Owes n) : b.Owes n := by
  cases h with
  | turn h | work h | raised h =>
    exact ⟨.inl (howes.due.resolve_right nofun), howes.le, nofun⟩
  | lowered s => exact absurd howes.due (by simp)
  | take h s => exact ⟨.inr rfl, howes.le, nofun⟩
  | rest => exact howes

theorem stops_move {a b : Attention} {e : Option LoopEvent} (h : Move a e b) {n : ℕ}
    (hstops : a.Stops n) : b.Stops (n + occurs LoopEvent.isWork e) := by
  obtain ⟨hstop, hle⟩ := hstops
  cases h with
  | turn | work => exact absurd hstop Bool.false_ne_true
  | stop h s st => exact ⟨rfl, hle⟩
  | hup | raised | lowered | take | reload | sample | slice | rest | slept => exact ⟨hstop, hle⟩

/-- What a trace says about the state it leads to. -/
structure Kept (tr : List LoopEvent) (a : Attention) : Prop where
  take : a.stage = .take → a.hup = true
  due : tr.countP LoopEvent.isReload + a.due ≤ tr.countP LoopEvent.isHup
  hups : ∀ pre mid, tr = pre ++ .hup :: mid → (∀ e ∈ mid, e.isReload = false) →
    a.Owes (mid.countP LoopEvent.isSample)
  stops : ∀ pre post, tr = pre ++ .stop :: post → a.Stops (post.countP LoopEvent.isWork)

theorem kept_start : Kept [] ⟨false, false, .idle⟩ where
  take := nofun
  due := le_rfl
  hups := fun pre mid h ↦ absurd h (by simp)
  stops := fun pre post h ↦ absurd h (by simp)

theorem Kept.move {tr : List LoopEvent} {a b : Attention} {e : Option LoopEvent} (h : Kept tr a)
    (hmove : Move a e b) : Kept (tr ++ e.toList) b where
  take := hup_of_take hmove h.take
  due := by
    have hdue := due_move hmove h.take
    have hle := h.due
    rw [occurs, occurs] at hdue
    rw [List.countP_append, List.countP_append]
    omega
  hups := by
    cases e with
    | none =>
      rw [Option.toList_none, List.append_nil]
      exact fun pre mid heq hnone ↦ owes_rest hmove (h.hups pre mid heq hnone)
    | some e =>
      refine since_concat (R := fun mid ↦ (∀ e ∈ mid, e.isReload = false) →
        a.Owes (mid.countP LoopEvent.isSample)) h.hups ?_ fun mid howes hnone ↦ ?_
      · rintro rfl -
        cases hmove with
        | hup h s st => exact ⟨.inl rfl, Nat.zero_le _, fun _ ↦ rfl⟩
      · rw [List.countP_append]
        exact owes_move hmove (howes fun e he ↦ hnone e (List.mem_append_left _ he))
          (hnone e (List.mem_append_right _ List.mem_cons_self))
  stops := by
    have hold : ∀ n, a.Stops n → b.Stops (n + occurs LoopEvent.isWork e) :=
      fun n ↦ stops_move hmove
    cases e with
    | none =>
      rw [Option.toList_none, List.append_nil]
      exact fun pre post heq ↦ hold _ (h.stops pre post heq)
    | some e =>
      refine since_concat h.stops ?_ fun post hstops ↦ ?_
      · rintro rfl
        cases hmove with
        | stop h s st =>
          refine ⟨rfl, ?_⟩
          split <;> decide
      · rw [List.countP_append]
        exact hold _ hstops

theorem kept_run {tr : List LoopEvent} {a : Attention} (h : Run tr a) : Kept tr a := by
  induction h with
  | start => exact kept_start
  | move h hmove ih => exact ih.move hmove

end Attention

/-! ## The two loops -/

def TurnPc.stage : TurnPc → Stage
  | .check => .check
  | .take => .take
  | .reload => .reload
  | .sample => .sample
  | .tcp | .poll | .drain => .idle

def stageOf (t : Option TurnPc) : Stage := (t.map TurnPc.stage).getD .idle

theorem LoopState.move_turnStep (opts : CpeAgentRunOpts) (serves : Bool) (env : LoopEnv)
    (s : LoopState) (t : TurnPc) :
    Attention.Move ⟨s.hup, s.stop, t.stage⟩ (s.turnStep opts serves env t).2.2
      ⟨(s.turnStep opts serves env t).1.hup, (s.turnStep opts serves env t).1.stop,
        stageOf (s.turnStep opts serves env t).2.1⟩ := by
  cases t with
  | check =>
    rw [turnStep]
    cases s.hup with
    | true => exact .raised _
    | false => exact .lowered _
  | take => exact .take _ _
  | reload => exact .reload _ _ _ _
  | sample => exact .sample _ _ _
  | tcp =>
    rw [turnStep]
    split <;> exact .rest _
  | poll | drain => exact .rest _

theorem LoopState.sliceStep_flags (env : LoopEnv) (s : LoopState) :
    (s.sliceStep env).hup = s.hup ∧ (s.sliceStep env).stop = s.stop ∧
      (s.sliceStep env).ticks = s.ticks := by
  rw [sliceStep]
  dsimp only
  split <;> exact ⟨rfl, rfl, rfl⟩

namespace PollLoop

def attention (s : PollLoop) : Attention where
  hup := s.hup
  stop := s.stop
  stage := match s.pc with
    | .turn t => t.stage
    | .sleep _ | .slice _ => .slice
    | .first | .top | .wait _ | .done => .idle

theorem move_step (opts : CpeAgentRunOpts) (s : PollLoop) (i : PollInput) :
    Attention.Move s.attention (step opts s i).2 (step opts s i).1.attention := by
  obtain ⟨⟨host, hup, stop, ticks⟩, pc, interval⟩ := s
  cases i with
  | hup => exact .hup _ _ _
  | stop => cases pc <;> exact .stop _ _ _
  | step env =>
    cases pc with
    | first => exact .slept _ _
    | top =>
      cases stop with
      | true => exact .rest _
      | false => exact .turn _
    | turn t =>
      have hmove := LoopState.move_turnStep opts true env ⟨host, hup, stop, ticks⟩ t
      rw [step]
      dsimp only
      cases hnext : (LoopState.turnStep opts true env ⟨host, hup, stop, ticks⟩ t).2.1 <;>
        rw [hnext] at hmove
      · rw [afterTurn, attention]
        split_ifs <;> exact hmove
      · exact hmove
    | wait left =>
      cases stop with
      | true =>
        rw [step]
        simp only [Bool.true_eq_false, and_false, if_false]
        exact .rest _
      | false =>
        rw [step]
        by_cases hleft : 0 < left
        · simp only [hleft, and_self, if_true]
          exact .work _
        · simp only [hleft, false_and, if_false]
          exact .rest _
    | sleep left => exact .slept _ _
    | slice left =>
      have hflags := LoopState.sliceStep_flags env ⟨host, hup, stop, ticks⟩
      rw [step, attention, attention]
      dsimp only
      rw [hflags.1, hflags.2.1]
      exact .slice _ _
    | done => exact .rest _

def start (host : IpcState) : PollLoop := ⟨.start host, .first, host.agent.cfg.loopInterval⟩

/-- `cpe_agent_run_uv` of `agent_loop_poll.c`, as far as it gets. -/
def run (opts : CpeAgentRunOpts) (host : IpcState) (inputs : List PollInput) :
    PollLoop × List LoopEvent :=
  tracedRun (step opts) (start host) inputs

theorem run_attention (opts : CpeAgentRunOpts) (host : IpcState) (inputs : List PollInput) :
    Attention.Run (run opts host inputs).2 (run opts host inputs).1.attention := by
  induction inputs using List.reverseRecOn with
  | nil => exact .start
  | append_singleton inputs i ih =>
    rw [run, tracedRun_concat]
    exact ih.move (move_step opts _ i)

end PollLoop

namespace UvLoop

def attention (s : UvLoop) : Attention where
  hup := s.hup
  stop := s.stop
  stage := match s.pc with
    | .turn t => t.stage
    | .slice => .slice
    | .idle | .done => .idle

theorem move_step (opts : CpeAgentRunOpts) (s : UvLoop) (i : UvInput) :
    Attention.Move s.attention (step opts s i).2 (step opts s i).1.attention := by
  obtain ⟨⟨host, hup, stop, ticks⟩, pc, lastIntervalMs, stopping⟩ := s
  cases i with
  | hup => exact .hup _ _ _
  | stop => exact .stop _ _ _
  | onTimer =>
    cases pc <;> cases stop <;> first | exact .rest _ | exact .turn _
  | onIpcTimer =>
    cases pc <;> cases stop <;> first | exact .rest _ | exact .work _
  | iterated =>
    cases pc <;> cases stopping <;> exact .rest _
  | step env =>
    cases pc with
    | turn t =>
      have hmove := LoopState.move_turnStep opts false env ⟨host, hup, stop, ticks⟩ t
      rw [step]
      dsimp only
      cases hnext : (LoopState.turnStep opts false env ⟨host, hup, stop, ticks⟩ t).2.1 <;>
        rw [hnext] at hmove <;> exact hmove
    | slice =>
      have hflags := LoopState.sliceStep_flags env ⟨host, hup, stop, ticks⟩
      rw [step, attention, attention]
      dsimp only
      rw [hflags.1, hflags.2.1]
      exact .slice _ _
    | idle | done => exact .rest _

def start (host : IpcState) : UvLoop := ⟨.start host, .idle, host.agent.cfg.loopInterval, false⟩

/-- `cpe_agent_run_uv` of `agent_loop.c`, as far as it gets. -/
def run (opts : CpeAgentRunOpts) (host : IpcState) (inputs : List UvInput) :
    UvLoop × List LoopEvent :=
  tracedRun (step opts) (start host) inputs

theorem run_attention (opts : CpeAgentRunOpts) (host : IpcState) (inputs : List UvInput) :
    Attention.Run (run opts host inputs).2 (run opts host inputs).1.attention := by
  induction inputs using List.reverseRecOn with
  | nil => exact .start
  | append_singleton inputs i ih =>
    rw [run, tracedRun_concat]
    exact ih.move (move_step opts _ i)

end UvLoop

/-! ## What a loop makes of its signals -/

/-- What is said of a trace. -/
structure Heeds (tr : List LoopEvent) : Prop where
  /-- there are no more reloads than signals for them, at any time -/
  reloads : ∀ pre post, tr = pre ++ post →
    pre.countP LoopEvent.isReload ≤ pre.countP LoopEvent.isHup
  /-- after a `SIGHUP` there is at most one sample without a reload in between -/
  hups : ∀ pre mid post, tr = pre ++ .hup :: (mid ++ post) → (∀ e ∈ mid, e.isReload = false) →
    mid.countP LoopEvent.isSample ≤ 1
  /-- after a signal to stop there is at most one more sample or slice -/
  stops : ∀ pre post, tr = pre ++ .stop :: post → post.countP LoopEvent.isWork ≤ 1

theorem Attention.Run.initial {tr : List LoopEvent} {a : Attention} (h : Run tr a)
    {pre post : List LoopEvent} (heq : tr = pre ++ post) : ∃ b, Run pre b := by
  induction h generalizing post with
  | start =>
    obtain ⟨rfl, -⟩ := List.append_eq_nil_iff.mp heq.symm
    exact ⟨_, .start⟩
  | @move tr a b e h hmove ih =>
    cases e with
    | none =>
      rw [Option.toList_none, List.append_nil] at heq
      exact ih heq
    | some e =>
      rcases List.eq_nil_or_concat post with rfl | ⟨post, x, rfl⟩
      · rw [List.append_nil] at heq
        exact ⟨b, heq ▸ h.move hmove⟩
      · rw [List.concat_eq_append, ← List.append_assoc] at heq
        exact ih (List.append_inj' heq rfl).1

theorem Attention.Run.heeds {tr : List LoopEvent} {a : Attention} (h : Run tr a) : Heeds tr where
  reloads := by
    intro pre post heq
    obtain ⟨b, hrun⟩ := h.initial heq
    exact (Nat.le_add_right _ _).trans (kept_run hrun).due
  hups := by
    intro pre mid post heq hnone
    rw [← List.cons_append, ← List.append_assoc] at heq
    obtain ⟨b, hrun⟩ := h.initial heq
    exact ((kept_run hrun).hups pre mid rfl hnone).le
  stops := fun pre post heq ↦
    (Nat.le_add_right _ _).trans ((kept_run h).stops pre post heq).le

/-- In either loop, whenever signals come: no reload without a `SIGHUP` of its own, no `SIGHUP` with
two samples before the next reload, and no more than one sample or slice after a signal to stop. -/
theorem loops_heed (opts : CpeAgentRunOpts) (host : IpcState) :
    (∀ inputs, Heeds (PollLoop.run opts host inputs).2) ∧
      ∀ inputs, Heeds (UvLoop.run opts host inputs).2 :=
  ⟨fun inputs ↦ (PollLoop.run_attention opts host inputs).heeds,
    fun inputs ↦ (UvLoop.run_attention opts host inputs).heeds⟩

end NetForensics
