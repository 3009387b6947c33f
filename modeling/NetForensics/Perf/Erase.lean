import NetForensics.Perf.Trace

/-!
# Traces and their samples

The samples of a trace are made from a result without the statistics that none of them carries, by
a loop that does not know of the two kinds of probe. Dropping from a full trace what that loop does
not have gives a trace of it, with the outcomes of the full one for its replies: what holds of the
samples for all replies holds of the traces the agent runs.
-/

namespace NetForensics.Trace

def Hop.erase (h : Hop) : CpeTraceHop where
  hop := h.hop
  addr := h.addr
  sent := h.sent
  replies := h.replies
  timeouts := h.timeouts
  lastRttMs := h.lastRttMs
  loss := h.loss
  reachedDest := h.reachedDest

/-- A result as the samples see it, with the method it will have in the end. -/
def Result.erase (method : CStr) (tr : Result) : CpeTraceResult where
  target := tr.target
  tsIso := tr.tsIso
  method := method
  probesPerHop := tr.probesPerHop
  reached := tr.reached
  destRttMs := tr.destRttMs
  hops := tr.hops.map Hop.erase

def replyOf : ProbeOutcome → TraceReply
  | .error => .lost
  | .timeout => .lost
  | .hop addr rttMs => .hop addr rttMs
  | .dest addr rttMs => .dest addr rttMs

/-- The variables of the inner loop as the samples see them. -/
def State.erase (method : CStr) (s : State) : CpeTraceResult × CpeTraceHop :=
  (s.tr.erase method, s.hop.erase)

variable {ttl : ℕ} {tr : Result} {s : State} {target method : CStr}
  {seen : List (List ProbeOutcome)}

/-! ## One hop -/

/-- The number of probes sent is positive once there is one more. -/
theorem Recorded.sent_pos {h : Hop} {outs : List ProbeOutcome} (hrec : Recorded h outs)
    (hroom : outs.length < 2 ^ 32 - 1) : 0 < h.sent + 1 :=
  UInt32.lt_iff_toNat_lt.mpr (by rw [toNat_succ hrec.sent hroom]; exact Nat.succ_pos _)

theorem erase_hopRecord_lost {h : Hop} (hpos : 0 < h.sent + 1) (addr : CStr) (rttMs : ℚ)
    (reachedDest : Bool) :
    (hopRecord h false addr rttMs reachedDest).erase = h.erase.recordLost := by
  rw [hopRecord_lost, if_pos hpos]
  rfl

theorem erase_hopRecord_reply {h : Hop} (hpos : 0 < h.sent + 1) (addr : CStr) (rttMs : ℚ)
    (reachedDest : Bool) :
    (hopRecord h true addr rttMs reachedDest).erase
      = h.erase.recordReply addr rttMs reachedDest := by
  have hdest : (if reachedDest = true then true else h.reachedDest)
      = (reachedDest || h.reachedDest) := by
    cases reachedDest <;> rfl
  rw [hopRecord]
  dsimp only
  rw [Bool.not_true, if_neg Bool.false_ne_true, CpeTraceHop.recordReply, Hop.erase]
  split
  · dsimp only
    rw [hdest]
    rfl
  · dsimp only
    rw [hdest]
    rfl

theorem erase_record (hpos : 0 < s.hop.sent + 1) (pr : ProbeOutcome) :
    (s.record target pr).erase method = traceProbe target (s.erase method) (replyOf pr) := by
  cases pr with
  | error => exact Prod.ext rfl (erase_hopRecord_lost hpos [] 0 false)
  | timeout => exact Prod.ext rfl (erase_hopRecord_lost hpos [] 0 false)
  | hop addr rttMs => exact Prod.ext rfl (erase_hopRecord_reply hpos _ rttMs false)
  | dest addr rttMs => exact Prod.ext rfl (erase_hopRecord_reply hpos _ rttMs true)

/-- One turn of the inner loop is one turn of the other, whose reply is the outcome it saw. -/
theorem erase_probe (target method : CStr) (h : Recorded s.hop s.seen)
    (hroom : s.seen.length < 2 ^ 32 - 1) (ans : Answers) :
    ∃ pr, (probe target s ans).seen = s.seen ++ [pr] ∧
      (probe target s ans).erase method
        = traceProbe target (s.erase method) (replyOf pr) := by
  have hpos := h.sent_pos hroom
  rw [probe]
  by_cases hudp : s.useUdp = true
  · rw [if_pos hudp]
    by_cases herror : ans.udp = .error
    · rw [if_pos herror]
      exact ⟨ans.icmp, seen_record _ _, erase_record (by exact hpos) ans.icmp⟩
    · rw [if_neg herror]
      exact ⟨ans.udp, seen_record _ _, erase_record (by exact hpos) ans.udp⟩
  · rw [if_neg hudp]
    exact ⟨ans.icmp, seen_record _ _, erase_record (by exact hpos) ans.icmp⟩

theorem erase_foldl (target method : CStr) (answers : ℕ → ℕ → Answers) (ttl : ℕ) (useUdp : Bool)
    (h : tr.reached = false) {k : ℕ} (hk : k ≤ 16) :
    let s := (List.range k).foldl (fun s p ↦ probe target s (answers ttl p))
      ⟨useUdp, tr, hopInit ttl, false, []⟩
    s.erase method
      = (s.seen.map replyOf).foldl (traceProbe target) (tr.erase method, { hop := ttl }) := by
  induction k with
  | zero => rfl
  | succ k ih =>
    obtain ⟨hinner, hlen⟩ := inner_foldl target answers ttl useUdp h (Nat.le_of_succ_le hk)
    obtain ⟨pr, hseen, herase⟩ :=
      erase_probe target method hinner.recorded (by omega) (answers ttl k)
    rw [List.range_succ, List.foldl_append, List.foldl_cons, List.foldl_nil]
    dsimp only
    rw [hseen, herase, ih (Nat.le_of_succ_le hk), List.map_append, List.foldl_append]
    rfl

/-- The inner loop is the other one over the outcomes it saw. -/
theorem erase_probeHop (target method : CStr) (answers : ℕ → ℕ → Answers) (ttl : ℕ)
    (useUdp : Bool) (h : tr.reached = false) (hprobes : tr.probesPerHop ≤ 16) :
    (probeHop target answers ttl useUdp tr).erase method
      = ((probeHop target answers ttl useUdp tr).seen.map replyOf).foldl (traceProbe target)
          (tr.erase method, { hop := ttl }) :=
  erase_foldl target method answers ttl useUdp h hprobes

/-! ## The hops -/

/-- The replies that bring back `seen`. -/
def repliesOf (seen : List (List ProbeOutcome)) (ttl p : ℕ) : TraceReply :=
  ((seen[ttl - 1]?.bind fun outs ↦ outs[p]?).map replyOf).getD .lost

theorem map_repliesOf {full : List (List ProbeOutcome)} {outs : List ProbeOutcome}
    (h : full[ttl - 1]? = some outs) :
    (List.range outs.length).map (repliesOf full ttl) = outs.map replyOf := by
  refine List.ext_getElem (by rw [List.length_map, List.length_map, List.length_range]) ?_
  intro p hp _
  rw [List.length_map, List.length_range] at hp
  rw [List.getElem_map, List.getElem_range, List.getElem_map, repliesOf, h, Option.bind_some,
    List.getElem?_eq_getElem hp, Option.map_some, Option.getD_some]

/-- The outcomes of a trace begin with those of its first hops. -/
theorem prefix_hopLoop (answers : ℕ → ℕ → Answers) (left : ℕ) (useUdp : Bool) :
    seen <+: (hopLoop target answers ttl left useUdp tr seen).2 := by
  induction left generalizing ttl useUdp tr seen with
  | zero => exact List.prefix_rfl
  | succ left ih =>
    have hmore := List.prefix_append seen [(probeHop target answers ttl useUdp tr).seen]
    rw [hopLoop]
    split
    · exact hmore
    · exact hmore.trans (ih _)

theorem erase_close (method : CStr) (s : State) : s.close.erase method =
    { s.tr.erase method with hops := (s.tr.erase method).hops ++ [s.hop.erase] } := by
  rw [Result.erase, State.close, List.map_append]
  rfl

theorem erase_hopLoop (target method : CStr) (answers : ℕ → ℕ → Answers) (left : ℕ) (useUdp : Bool)
    (h : tr.reached = false) (hprobes : tr.probesPerHop ≤ 16) (httl : seen.length + 1 = ttl)
    {full : List (List ProbeOutcome)}
    (hfull : (hopLoop target answers ttl left useUdp tr seen).2 <+: full) :
    (hopLoop target answers ttl left useUdp tr seen).1.erase method
      = traceLoop target (repliesOf full) ttl left (tr.erase method) := by
  induction left generalizing ttl useUdp tr seen with
  | zero => rfl
  | succ left ih =>
    obtain ⟨hinner, hlen⟩ := inner_probeHop target answers ttl useUdp h hprobes
    have herase := erase_probeHop target method answers ttl useUdp h hprobes
    rw [hopLoop] at hfull ⊢
    generalize probeHop target answers ttl useUdp tr = s at *
    -- whichever way the loop goes on, what this hop has seen stays where it is
    have hprefix : seen ++ [s.seen] <+: full := by
      split at hfull
      · exact hfull
      · exact (prefix_hopLoop answers left s.useUdp).trans hfull
    have hseen : full[ttl - 1]? = some s.seen := by
      obtain ⟨rest, rfl⟩ := hprefix
      rw [← httl, Nat.add_sub_cancel, List.append_assoc, List.getElem?_append_right le_rfl,
        Nat.sub_self]
      rfl
    rw [← map_repliesOf hseen, List.foldl_map, hlen] at herase
    rw [traceLoop, show (List.range (tr.erase method).probesPerHop).foldl _ _ = _ from herase.symm]
    dsimp only [State.erase]
    rw [← erase_close]
    have hdest : s.hop.erase.reachedDest = s.hopReached := hinner.reachedDest
    rw [hdest]
    by_cases hreached : s.hopReached = true
    · rw [if_pos hreached, if_pos hreached]
    · rw [if_neg hreached] at hfull
      rw [if_neg hreached, if_neg hreached]
      refine ih s.useUdp ?_ ?_ ?_ hfull
      · exact hinner.reached.trans (Bool.eq_false_of_not_eq_true hreached)
      · exact hinner.probesPerHop.le.trans hprobes
      · rw [List.length_append, List.length_singleton, httl]

/-! ## The method -/

/-- The method of a trace that sends its probes over UDP, or no longer does. -/
def methodText (useUdp : Bool) : CStr := if useUdp then ascii "udp" else ascii "icmp"

theorem method_record (pr : ProbeOutcome) (h : s.tr.method = methodText s.useUdp) :
    (s.record target pr).tr.method = methodText (s.record target pr).useUdp := by
  cases pr <;> exact h

theorem method_probe (ans : Answers) (h : s.tr.method = methodText s.useUdp) :
    (probe target s ans).tr.method = methodText (probe target s ans).useUdp := by
  rw [probe]
  by_cases hudp : s.useUdp = true
  · rw [if_pos hudp]
    rw [hudp] at h
    by_cases herror : ans.udp = .error
    · rw [if_pos herror]
      exact method_record ans.icmp rfl
    · rw [if_neg herror]
      exact method_record ans.udp h
  · rw [if_neg hudp]
    rw [Bool.eq_false_of_not_eq_true hudp] at h
    exact method_record ans.icmp h

theorem method_probeHop (target : CStr) (answers : ℕ → ℕ → Answers) (ttl : ℕ) {useUdp : Bool}
    (h : tr.method = methodText useUdp) :
    (probeHop target answers ttl useUdp tr).tr.method
      = methodText (probeHop target answers ttl useUdp tr).useUdp := by
  rw [probeHop]
  induction tr.probesPerHop with
  | zero => exact h
  | succ k ih =>
    rw [List.range_succ, List.foldl_append, List.foldl_cons, List.foldl_nil]
    exact method_probe (answers ttl k) ih

theorem method_hopLoop (target : CStr) (answers : ℕ → ℕ → Answers) (ttl left : ℕ) {useUdp : Bool}
    (tr : Result) (seen : List (List ProbeOutcome)) (h : tr.method = methodText useUdp) :
    ∃ useUdp', (hopLoop target answers ttl left useUdp tr seen).1.method = methodText useUdp' := by
  induction left generalizing ttl useUdp tr seen with
  | zero => exact ⟨useUdp, h⟩
  | succ left ih =>
    have hclose := method_probeHop target answers ttl h
    rw [hopLoop]
    split
    · exact ⟨_, hclose⟩
    · exact ih _ _ _ hclose

/-! ## The trace -/

theorem clampTtl_eq (maxTtl : ℤ) :
    clampTtl maxTtl = min (if maxTtl.toNat = 0 then 30 else maxTtl.toNat) cpeTraceHopMax := by
  rw [clampTtl]
  simp only [Int.toNat_eq_zero]

theorem clampProbes_eq (probesPerHop : ℤ) :
    clampProbes probesPerHop
      = min (if probesPerHop.toNat = 0 then 1 else probesPerHop.toNat) 16 := by
  rw [clampProbes]
  simp only [Int.toNat_eq_zero]

theorem eq_of_resolveTarget {cfg : CpeAgentConfig} {targetOpt : CStr}
    (h : resolveTarget cfg targetOpt = some target) : target = probeTarget cfg targetOpt := by
  rw [resolveTarget, Option.ite_none_left_eq_some] at h
  exact (Option.some.inj h.2).symm

/-- Without its statistics, a trace is one that the samples are made from. -/
theorem runTrace_erase (cfg : CpeAgentConfig) (clock : Option WallClock) (targetOpt : CStr)
    (maxTtl probesPerHop : ℤ) (udp : Bool) (answers : ℕ → ℕ → Answers) :
    ∀ res ∈ runTrace cfg clock targetOpt maxTtl probesPerHop udp answers,
      ∃ udp', res.1.erase res.1.method
        = NetForensics.runTrace clock (probeTarget cfg targetOpt) maxTtl.toNat probesPerHop.toNat
            udp' (repliesOf res.2) := by
  intro res hres
  rw [runTrace, Option.mem_def, Option.map_eq_some_iff] at hres
  obtain ⟨target, htarget, rfl⟩ := hres
  obtain ⟨udp', hmethod⟩ := method_hopLoop target answers 1 (clampTtl maxTtl)
    (traceInit clock target (clampTtl maxTtl) (clampProbes probesPerHop) udp) [] rfl
  refine ⟨udp', (erase_hopLoop target _ answers (clampTtl maxTtl) udp rfl
    (clampProbes_bounds probesPerHop).2 (by rfl) List.prefix_rfl).trans ?_⟩
  rw [hmethod, NetForensics.runTrace, ← clampTtl_eq, ← clampProbes_eq,
    ← eq_of_resolveTarget htarget]
  rfl

end NetForensics.Trace
