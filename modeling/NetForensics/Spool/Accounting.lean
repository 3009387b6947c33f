import NetForensics.Agent.Apply
import NetForensics.Spool.Refinement
import NetForensics.Util.Run

/-!
# Accounting for lines

Every line that was accepted should be delivered by a call that reported success, still queued, or
counted as dropped. Two operations can break this: a flush that fails after it has written lines
(they are gone from the ring, and the caller is told that nothing was delivered), and a
configuration that changes the capacity (the old ring is released with what it holds).

`linesLost` is what a step takes out of the books. A run keeps them balanced exactly when no step
of it loses a line.
-/

namespace NetForensics

/-- The operations that move lines, with the outcomes of the calls they make. -/
inductive LineOp where
  | push (line : CStr)
  | flush (sink : Sink)
  | emit (env : EmitEnv)
  | apply (cfg : CpeAgentConfig) (env : ApplyEnv)
  | reload (file : LoadedConfig) (routerIdOverride : CStr) (env : ApplyEnv)

/-- An agent with the number of lines it accepted, and of lines that were delivered by calls that
reported success. -/
structure Tally where
  agent : CpeAgent
  accepted : ℕ
  delivered : ℕ

namespace Tally

def afterFlush (t : Tally) (res : CpeAgent × ℤ × List CStr) : Tally where
  agent := res.1
  accepted := t.accepted
  delivered := t.delivered + if 0 ≤ res.2.1 then res.2.2.length else 0

def step (t : Tally) : LineOp → Tally
  | .push line =>
    { t with
      agent := (t.agent.spoolPushLine line).1
      accepted := t.accepted + if (t.agent.spoolPushLine line).2 = 0 then 1 else 0 }
  | .flush sink => t.afterFlush (t.agent.spoolFlush sink)
  | .emit env => t.afterFlush (t.agent.emitFlush env)
  | .apply cfg env => { t with agent := (t.agent.applyConfig cfg env).1 }
  | .reload file routerIdOverride env =>
    { t with agent := (t.agent.reloadConfig file routerIdOverride env).1 }

def run (t : Tally) (ops : List LineOp) : Tally := ops.foldl step t

/-- No line has gone missing. -/
def Balanced (t : Tally) : Prop :=
  t.accepted = t.delivered + t.agent.spoolDepth + t.agent.spoolDrops

def start : Tally := ⟨CpeAgent.create, 0, 0⟩

end Tally

namespace CpeAgent

/-! ## When a step keeps every line -/

/-- A flush keeps every line: there is none, the first write fails, or nothing fails. `finish` is
the outcome of the calls after the last write. -/
def FlushKeeps (a : CpeAgent) (write : ℕ → Bool) (finish : Bool) : Prop :=
  a.spool.mem = false ∨ a.spool.ring.cnt = 0 ∨ write 0 = false ∨
    ((∀ k < a.spool.ring.cnt, write k = true) ∧ finish = true)

/-- A configuration keeps every line: it is refused by validation, asks for the capacity the ring
has, or finds the ring empty. -/
def ConfigKeeps (a : CpeAgent) (cfg : CpeAgentConfig) : Prop :=
  cpeAgentConfigValidate (normalizeConfig cfg) ≠ none ∨
    (normalizeConfig cfg).spoolMaxLines = a.spool.ring.cap ∨ a.spool.ring.cnt = 0

/-- The condition on a step. -/
def Keeps (a : CpeAgent) : LineOp → Prop
  | .push _ => True
  | .flush sink => a.FlushKeeps sink.write sink.flush
  | .emit env =>
    if a.cfg.emitMode = ascii "https" ∨ a.cfg.emitMode = ascii "http" then True
    else if a.cfg.emitMode = ascii "spool" then
      a.cfg.spoolPath = [] ∨ env.fopen = false ∨
        a.FlushKeeps env.sink.write (env.sink.flush && env.sink.close)
    else a.FlushKeeps env.sink.write env.sink.flush
  | .apply cfg _ => a.ConfigKeeps cfg
  | .reload file routerIdOverride _ =>
    ∀ cfg, a.reloadCandidate file routerIdOverride = some cfg → a.ConfigKeeps cfg

/-! ## What a step loses -/

/-- Lines written by a flush that then reports failure. -/
def lostByFlush (a : CpeAgent) (write : ℕ → Bool) (finish : Bool) : ℕ :=
  if a.spool.mem then
    if written write 0 a.spool.ring.cnt = a.spool.ring.cnt ∧ finish then 0
    else written write 0 a.spool.ring.cnt
  else 0

/-- Lines released with a ring of another capacity. -/
def lostByConfig (a : CpeAgent) (cfg : CpeAgentConfig) : ℕ :=
  if cpeAgentConfigValidate (normalizeConfig cfg) = none ∧
      (normalizeConfig cfg).spoolMaxLines ≠ a.spool.ring.cap then a.spool.ring.cnt
  else 0

/-- Lines a step takes out of the books. -/
def linesLost (a : CpeAgent) : LineOp → ℕ
  | .push _ => 0
  | .flush sink => a.lostByFlush sink.write sink.flush
  | .emit env =>
    if a.cfg.emitMode = ascii "https" ∨ a.cfg.emitMode = ascii "http" then 0
    else if a.cfg.emitMode = ascii "spool" then
      if a.cfg.spoolPath = [] ∨ env.fopen = false then 0
      else a.lostByFlush env.sink.write (env.sink.flush && env.sink.close)
    else a.lostByFlush env.sink.write env.sink.flush
  | .apply cfg _ => a.lostByConfig cfg
  | .reload file routerIdOverride _ =>
    ((a.reloadCandidate file routerIdOverride).map a.lostByConfig).getD 0

theorem written_eq_zero_iff (write : ℕ → Bool) (i n : ℕ) :
    written write i n = 0 ↔ n = 0 ∨ write i = false := by
  cases n with
  | zero => simp [written]
  | succ n =>
    rw [written]
    cases write i <;> simp

theorem written_eq_iff (write : ℕ → Bool) (i n : ℕ) :
    written write i n = n ↔ ∀ k < n, write (i + k) = true := by
  induction n generalizing i with
  | zero => simp [written]
  | succ n ih =>
    rw [written]
    cases hw : write i with
    | false =>
      refine iff_of_false (by simp) fun h ↦ ?_
      have h0 := h 0 (Nat.succ_pos n)
      rw [Nat.add_zero, hw] at h0
      exact Bool.false_ne_true h0
    | true =>
      rw [if_pos rfl, Nat.add_right_cancel_iff, ih]
      constructor
      · rintro h (_ | k) hk
        · exact hw
        · rw [← Nat.add_assoc, Nat.add_right_comm]
          exact h k (by omega)
      · intro h k hk
        rw [Nat.add_right_comm, Nat.add_assoc]
        exact h (k + 1) (by omega)

theorem lostByFlush_eq_zero_iff (a : CpeAgent) (write : ℕ → Bool) (finish : Bool) :
    a.lostByFlush write finish = 0 ↔ a.FlushKeeps write finish := by
  rw [lostByFlush, FlushKeeps]
  cases a.spool.mem with
  | false => simp
  | true =>
    have hall := written_eq_iff write 0 a.spool.ring.cnt
    simp only [Nat.zero_add] at hall
    rw [if_pos rfl]
    split
    · rename_i h
      exact iff_of_true rfl (Or.inr (Or.inr (Or.inr ⟨hall.mp h.1, h.2⟩)))
    · rename_i h
      rw [written_eq_zero_iff]
      constructor
      · rintro (h0 | h0)
        · exact Or.inr (Or.inl h0)
        · exact Or.inr (Or.inr (Or.inl h0))
      · rintro (h0 | h0 | h0 | ⟨hw, hf⟩)
        · exact absurd h0.symm Bool.false_ne_true
        · exact Or.inl h0
        · exact Or.inr h0
        · exact absurd ⟨hall.mpr hw, hf⟩ h

theorem lostByConfig_eq_zero_iff (a : CpeAgent) (cfg : CpeAgentConfig) :
    a.lostByConfig cfg = 0 ↔ a.ConfigKeeps cfg := by
  rw [lostByConfig, ConfigKeeps]
  split
  · rename_i h
    constructor
    · exact fun h0 ↦ Or.inr (Or.inr h0)
    · rintro (h0 | h0 | h0)
      · exact absurd h.1 h0
      · exact absurd h0 h.2
      · exact h0
  · rename_i h
    refine iff_of_true rfl ?_
    by_cases hv : cpeAgentConfigValidate (normalizeConfig cfg) = none
    · exact Or.inr (Or.inl (not_not.mp fun hne ↦ h ⟨hv, hne⟩))
    · exact Or.inl hv

theorem linesLost_eq_zero_iff (a : CpeAgent) (op : LineOp) : a.linesLost op = 0 ↔ a.Keeps op := by
  cases op with
  | push line => exact iff_of_true rfl trivial
  | flush sink => exact a.lostByFlush_eq_zero_iff sink.write sink.flush
  | emit env =>
    rw [linesLost, Keeps]
    split_ifs with hhttp hspool hopen
    · exact iff_of_true rfl trivial
    · exact iff_of_true rfl (hopen.elim Or.inl fun h ↦ Or.inr (Or.inl h))
    · rw [lostByFlush_eq_zero_iff]
      exact ⟨fun h ↦ Or.inr (Or.inr h), fun h ↦ h.elim (fun h ↦ absurd (Or.inl h) hopen)
        fun h ↦ h.elim (fun h ↦ absurd (Or.inr h) hopen) id⟩
    · exact a.lostByFlush_eq_zero_iff env.sink.write env.sink.flush
  | apply cfg env => exact a.lostByConfig_eq_zero_iff cfg
  | reload file routerIdOverride env =>
    rw [linesLost, Keeps]
    cases a.reloadCandidate file routerIdOverride with
    | none => simp
    | some cfg => simp [lostByConfig_eq_zero_iff]

/-! ## What a step moves -/

theorem flushLoop_counts (write : ℕ → Bool) (n : ℕ) (r : Ring CStr) (out : List CStr) :
    (flushLoop write n r out).1.cnt = r.cnt - written write out.length n ∧
      (flushLoop write n r out).2.1.length = out.length + written write out.length n ∧
      (flushLoop write n r out).2.2 = decide (written write out.length n = n) := by
  induction n generalizing r out with
  | zero => exact ⟨rfl, rfl, rfl⟩
  | succ n ih =>
    rw [flushLoop, written]
    by_cases hw : write out.length = true
    · rw [if_pos hw, if_pos hw]
      have hrest := ih (r.advance 1) (out ++ [r.cells r.head])
      rw [List.length_append, List.length_singleton] at hrest
      refine ⟨?_, ?_, ?_⟩
      · rw [hrest.1, Ring.advance_cnt]
        omega
      · rw [hrest.2.1]
        omega
      · rw [hrest.2.2]
        exact decide_eq_decide.mpr (Nat.add_right_cancel_iff).symm
    · rw [if_neg hw, if_neg hw]
      exact ⟨rfl, rfl, (decide_eq_false (Nat.succ_ne_zero n).symm).symm⟩

theorem batchLoop_le (r : Ring CStr) (k i : ℕ) (body : CStr) :
    (batchLoop r k i body).2 ≤ i + k := by
  induction k generalizing i body with
  | zero => exact le_rfl
  | succ k ih =>
    rw [batchLoop]
    dsimp only
    split_ifs
    · omega
    · exact le_trans (ih _ _) (by omega)
    · omega

end CpeAgent

/-- The result of a call that hands lines on: what has left the ring was handed on, and it is
reported unless it counts as lost. -/
structure HandsOn (a : CpeAgent) (lost : ℕ) (res : CpeAgent × ℤ × List CStr) : Prop where
  drops_eq : res.1.spoolDrops = a.spoolDrops
  depth_eq : a.spoolDepth
    = (if 0 ≤ res.2.1 then res.2.2.length else 0) + res.1.spoolDepth + lost

namespace CpeAgent

theorem handsOn_refl (a : CpeAgent) (rc : ℤ) : HandsOn a 0 (a, rc, []) :=
  ⟨rfl, by simp⟩

theorem handsOn_spoolFlush (a : CpeAgent) (sink : Sink) :
    HandsOn a (a.lostByFlush sink.write sink.flush) (a.spoolFlush sink) := by
  rw [spoolFlush, lostByFlush]
  cases hmem : a.spool.mem with
  | false => exact a.handsOn_refl (-1)
  | true =>
    obtain ⟨hcnt, hout, hok⟩ := flushLoop_counts sink.write a.spool.ring.cnt a.spool.ring []
    have hle := written_le sink.write 0 a.spool.ring.cnt
    rw [List.length_nil] at hcnt hout hok
    simp only [Bool.not_true, Bool.false_eq_true, if_false, if_true]
    rw [hok]
    by_cases hall : written sink.write 0 a.spool.ring.cnt = a.spool.ring.cnt
    · simp only [hall, decide_true, Bool.not_true, Bool.false_eq_true, if_false, true_and]
      cases sink.flush with
      | false => exact ⟨rfl, by simp [spoolDepth, hcnt, hall]⟩
      | true => exact ⟨rfl, by simp [spoolDepth, hcnt, hout, hall]⟩
    · simp only [hall, decide_false, Bool.not_false, if_true, false_and, if_false]
      refine ⟨rfl, ?_⟩
      simp only [spoolDepth, hcnt]
      rw [if_neg (by decide)]
      omega

theorem handsOn_emitHttp (a : CpeAgent) (post : HttpRequest → Bool) :
    HandsOn a 0 (a.emitHttp post) := by
  have hle := batchLoop_le a.spool.ring a.spool.ring.cnt 0 []
  rw [emitHttp]
  dsimp only
  split_ifs
  · exact a.handsOn_refl 0
  · exact a.handsOn_refl (-1)
  · exact a.handsOn_refl (-1)
  · refine ⟨rfl, ?_⟩
    simp only [spoolDepth, Ring.advance_cnt, List.length_take, Ring.length_contents]
    rw [if_pos (Int.natCast_nonneg _)]
    omega

/-- Whatever a flush reports, what has left the ring was written. -/
theorem spoolDepth_spoolFlush (a : CpeAgent) (sink : Sink) :
    a.spoolDepth = (a.spoolFlush sink).1.spoolDepth + a.lostByFlush sink.write false := by
  rw [lostByFlush]
  cases hmem : a.spool.mem with
  | false =>
    rw [spoolFlush, hmem]
    rfl
  | true =>
    have hcnt := (flushLoop_counts sink.write a.spool.ring.cnt a.spool.ring []).1
    have hle := written_le sink.write 0 a.spool.ring.cnt
    rw [List.length_nil] at hcnt
    rw [spoolFlush_ring hmem]
    simp only [spoolDepth, hcnt, Bool.false_eq_true, and_false, if_false, if_true]
    omega

theorem handsOn_emitFile (a : CpeAgent) (fopen : Bool) (sink : Sink) :
    HandsOn a (if a.cfg.spoolPath = [] ∨ fopen = false then 0
      else a.lostByFlush sink.write (sink.flush && sink.close)) (a.emitFile fopen sink) := by
  have hflush := a.handsOn_spoolFlush sink
  rw [emitFile]
  by_cases hpath : a.cfg.spoolPath = []
  · rw [if_pos hpath, if_pos (Or.inl hpath)]
    exact a.handsOn_refl (-1)
  cases fopen with
  | false =>
    rw [if_neg hpath, if_pos (Or.inr rfl)]
    exact a.handsOn_refl (-1)
  | true =>
    have hno : ¬ (a.cfg.spoolPath = [] ∨ true = false) := by simp [hpath]
    rw [if_neg hpath, if_neg hno]
    cases sink.close with
    | true =>
      rw [Bool.and_true]
      exact hflush
    | false =>
      -- the stream is lost: whatever was written is not reported
      have hdepth := a.spoolDepth_spoolFlush sink
      simp only [Bool.not_true, Bool.false_eq_true, if_false, Bool.not_false, Bool.true_and,
        decide_eq_true_eq, Bool.and_false]
      split
      · have hfail : ¬ (0 : ℤ) ≤ -1 := by decide
        exact ⟨hflush.drops_eq, by rw [if_neg hfail, Nat.zero_add]; exact hdepth⟩
      · rename_i hneg
        exact ⟨hflush.drops_eq, by rw [if_neg hneg, Nat.zero_add]; exact hdepth⟩

theorem handsOn_emitFlush (a : CpeAgent) (env : EmitEnv) :
    HandsOn a (a.linesLost (.emit env)) (a.emitFlush env) := by
  rw [emitFlush, linesLost]
  split
  · exact a.handsOn_emitHttp env.post
  · split
    · exact a.handsOn_emitFile env.fopen env.sink
    · exact a.handsOn_spoolFlush env.sink

/-- An accepted line is one more in the ring, or takes the place of one that is counted. -/
theorem spoolPushLine_counts (a : CpeAgent) (line : CStr) :
    (a.spoolPushLine line).1.spoolDepth + (a.spoolPushLine line).1.spoolDrops
      = a.spoolDepth + a.spoolDrops + if (a.spoolPushLine line).2 = 0 then 1 else 0 := by
  rw [spoolPushLine]
  split
  · rfl
  · rename_i hring
    -- a full ring of capacity at least one has a line to drop
    have hcap : a.spool.ring.cap ≠ 0 := by
      intro h0
      rw [h0] at hring
      exact hring (Bool.or_true _)
    dsimp only
    rw [if_pos rfl]
    split
    · simp only [spoolDepth, spoolDrops, eqPush_spool, Ring.put_cnt, Ring.advance_cnt]
      omega
    · simp only [spoolDepth, spoolDrops, Ring.put_cnt]
      omega

theorem installConfig_spool (a : CpeAgent) (cfg : CpeAgentConfig) (env : ApplyEnv) :
    (a.installConfig cfg env).spool = a.spool :=
  eqPush_spool _ _ _ _ _

/-- A configuration moves no line; a ring of another capacity starts out empty. -/
theorem applyConfig_counts (a : CpeAgent) (cfg : CpeAgentConfig) (env : ApplyEnv) :
    a.spoolDepth = (a.applyConfig cfg env).1.spoolDepth + a.lostByConfig cfg ∧
      (a.applyConfig cfg env).1.spoolDrops = a.spoolDrops := by
  rw [lostByConfig]
  rcases a.applyConfig_cases cfg env with ⟨err, hv, hres⟩ | ⟨hv, hne, -, bytes, hres⟩ |
    ⟨-, hcap, hres⟩ | ⟨hv, hne, -, cap, slots, hres⟩
  · rw [hres, hv, if_neg (by simp), spoolDepth, spoolDepth, spoolDrops, spoolDrops, eqPush_spool]
    exact ⟨rfl, rfl⟩
  · rw [hres, if_pos ⟨hv, hne⟩, spoolDepth, spoolDepth, spoolDrops, spoolDrops, eqPush_spool,
      eqPush_spool]
    exact ⟨(Nat.zero_add _).symm, rfl⟩
  · rw [hres, if_neg fun h ↦ h.2 hcap, spoolDepth, spoolDepth, spoolDrops, spoolDrops,
      installConfig_spool]
    exact ⟨rfl, rfl⟩
  · rw [hres, if_pos ⟨hv, hne⟩, spoolDepth, spoolDepth, spoolDrops, spoolDrops,
      installConfig_spool]
    exact ⟨(Nat.zero_add _).symm, rfl⟩

theorem reloadConfig_counts (a : CpeAgent) (file : LoadedConfig) (routerIdOverride : CStr)
    (env : ApplyEnv) :
    a.spoolDepth = (a.reloadConfig file routerIdOverride env).1.spoolDepth
        + a.linesLost (.reload file routerIdOverride env) ∧
      (a.reloadConfig file routerIdOverride env).1.spoolDrops = a.spoolDrops := by
  rw [reloadConfig, linesLost]
  cases a.reloadCandidate file routerIdOverride with
  | none => exact ⟨rfl, rfl⟩
  | some cfg => exact a.applyConfig_counts cfg env

end CpeAgent

/-! ## Runs -/

namespace Tally

/-- What the books are short of: accepted lines that are nowhere. -/
def deficit (t : Tally) : ℤ :=
  t.accepted - (t.delivered + t.agent.spoolDepth + t.agent.spoolDrops)

theorem balanced_iff (t : Tally) : t.Balanced ↔ t.deficit = 0 := by
  rw [Balanced, deficit]
  omega

theorem deficit_afterFlush (t : Tally) {lost : ℕ} {res : CpeAgent × ℤ × List CStr}
    (h : HandsOn t.agent lost res) : (t.afterFlush res).deficit = t.deficit + lost := by
  have hdrops := h.drops_eq
  have hdepth := h.depth_eq
  rw [deficit, deficit, afterFlush]
  dsimp only
  omega

theorem deficit_step (t : Tally) (op : LineOp) :
    (t.step op).deficit = t.deficit + t.agent.linesLost op := by
  cases op with
  | push line =>
    have hcount := t.agent.spoolPushLine_counts line
    rw [deficit, deficit, step, CpeAgent.linesLost]
    dsimp only
    omega
  | flush sink => exact t.deficit_afterFlush (t.agent.handsOn_spoolFlush sink)
  | emit env => exact t.deficit_afterFlush (t.agent.handsOn_emitFlush env)
  | apply cfg env =>
    have hcount := t.agent.applyConfig_counts cfg env
    rw [deficit, deficit, step, CpeAgent.linesLost]
    dsimp only
    omega
  | reload file routerIdOverride env =>
    have hcount := t.agent.reloadConfig_counts file routerIdOverride env
    rw [deficit, deficit, step]
    dsimp only
    omega

/-- Every step of the run meets the condition in the state it is taken in. -/
def AllKeep (t : Tally) (ops : List LineOp) : Prop :=
  AllSteps step (fun t op ↦ t.agent.Keeps op) t ops

/-- The deficit never shrinks. -/
theorem deficit_le_run (t : Tally) (ops : List LineOp) : t.deficit ≤ (t.run ops).deficit := by
  refine foldl_invariant (P := fun u : Tally ↦ t.deficit ≤ u.deficit) (fun u op hu ↦ ?_) le_rfl ops
  rw [deficit_step]
  omega

theorem balanced_run_iff_of_balanced {t : Tally} (h : t.Balanced) (ops : List LineOp) :
    (t.run ops).Balanced ↔ t.AllKeep ops := by
  induction ops generalizing t with
  | nil => exact iff_of_true h trivial
  | cons op ops ih =>
    have hstep := t.deficit_step op
    rw [(t.balanced_iff).mp h, Int.zero_add] at hstep
    by_cases hlost : t.agent.linesLost op = 0
    · have hbal : (t.step op).Balanced := by
        rw [balanced_iff, hstep, hlost]
        rfl
      rw [AllKeep, AllSteps, and_iff_right ((t.agent.linesLost_eq_zero_iff op).mp hlost)]
      exact ih hbal
    · refine iff_of_false ?_ fun hall ↦ hlost ((t.agent.linesLost_eq_zero_iff op).mpr hall.1)
      -- what this step loses stays lost
      intro hbal
      have hgrow := (t.step op).deficit_le_run ops
      have hend := ((t.run (op :: ops)).balanced_iff).mp hbal
      rw [run, List.foldl_cons] at hend
      rw [run] at hgrow
      omega

/-- From a new agent, every accepted line is delivered, queued or counted as dropped, if and only if
every step of the run keeps its lines. -/
theorem balanced_run_iff (ops : List LineOp) : (start.run ops).Balanced ↔ start.AllKeep ops := by
  have hstart : start.Balanced := by
    rw [Balanced]
    rfl
  exact balanced_run_iff_of_balanced hstart ops

/-- One accepted line, and a configuration with another capacity: the line is gone. -/
theorem not_balanced_resize :
    ¬ (start.run [.push (ascii "up"), .apply { cpeAgentConfigDefaults with spoolMaxLines := 8 }
      ⟨true, .ok 3, .ok 4, .ok 5⟩]).Balanced := by
  rw [balanced_iff]
  decide

end Tally

end NetForensics
