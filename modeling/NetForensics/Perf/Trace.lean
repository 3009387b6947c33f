import NetForensics.Perf.Icmp
import NetForensics.Util.Summary

/-!
# Traces

`run_trace` in full: two nested loops, an exit when the destination has answered, and a fallback
from UDP to ICMP in the middle of a hop. The loops hand on the outcomes of the probes next to the
result, so that a statement about a hop can refer to them.

A hop keeps its statistics as it goes. What one probe more does to them (`Recorded.lost`,
`Recorded.reply`) carries through the loop over the probes of a hop (`Inner`) and the loop over the
hops (`SoFar`).
-/

namespace NetForensics.Trace

/-- `cpe_trace_hop_t` -/
structure Hop where
  hop : ℕ
  addr : CStr
  sent : UInt32
  replies : UInt32
  timeouts : UInt32
  lastRttMs : ℚ
  avgRttMs : ℚ
  minRttMs : ℚ
  maxRttMs : ℚ
  loss : ℚ
  reachedDest : Bool

/-- `cpe_trace_result_t`; `hops` are the first `hop_count` entries. -/
structure Result where
  target : CStr
  tsIso : CStr
  method : CStr
  maxTtl : ℕ
  probesPerHop : ℕ
  reached : Bool
  destRttMs : ℚ
  hops : List Hop

/-- `hop_init` -/
def hopInit (hop : ℕ) : Hop := ⟨hop, [], 0, 0, 0, 0, 0, 0, 0, 0, false⟩

def Hop.summary (h : Hop) : Summary ℚ := ⟨h.lastRttMs, h.avgRttMs, h.minRttMs, h.maxRttMs⟩

/-- `hop_record` -/
def hopRecord (h : Hop) (success : Bool) (addr : CStr) (rttMs : ℚ) (reachedDest : Bool) : Hop :=
  let h := { h with sent := h.sent + 1 }
  if !success then
    let h := { h with timeouts := h.timeouts + 1 }
    { h with loss := if 0 < h.sent then h.timeouts.toNat / h.sent.toNat else h.loss }
  else
    let h := { h with
      replies := h.replies + 1
      addr := if addr ≠ [] then copyStr cpePerfTargetMax addr else h.addr
      lastRttMs := rttMs }
    let h :=
      if h.replies = 1 then
        { h with minRttMs := rttMs, maxRttMs := rttMs, avgRttMs := rttMs }
      else
        { h with
          minRttMs := if rttMs < h.minRttMs then rttMs else h.minRttMs
          maxRttMs := if h.maxRttMs < rttMs then rttMs else h.maxRttMs
          avgRttMs := (h.avgRttMs * (h.replies - 1).toNat + rttMs) / h.replies.toNat }
    { h with
      reachedDest := if reachedDest then true else h.reachedDest
      loss := if 0 < h.sent then h.timeouts.toNat / h.sent.toNat else h.loss }

/-- What the two kinds of probe would bring back at one point of a trace. -/
structure Answers where
  udp : ProbeOutcome
  icmp : ProbeOutcome

/-- The variables of the loops over one hop, and the outcomes so far. -/
structure State where
  useUdp : Bool
  tr : Result
  hop : Hop
  hopReached : Bool
  seen : List ProbeOutcome

/-- What the inner loop does with the outcome of a probe. -/
def State.record (target : CStr) (s : State) : ProbeOutcome → State
  | .error => { s with hop := hopRecord s.hop false [] 0 false }
  | .timeout => { s with hop := hopRecord s.hop false [] 0 false }
  | .dest addr rttMs =>
    { s with
      hop := hopRecord s.hop true (if replyAddr addr ≠ [] then replyAddr addr else target) rttMs
        true
      hopReached := true
      tr := { s.tr with reached := true, destRttMs := rttMs } }
  | .hop addr rttMs => { s with hop := hopRecord s.hop true (replyAddr addr) rttMs false }

/-- One turn of the inner loop. The first UDP probe that cannot be sent is made up for by ICMP, and
UDP is not tried again. -/
def probe (target : CStr) (s : State) (ans : Answers) : State :=
  let (useUdp, tr, pr) :=
    if s.useUdp then
      if ans.udp = .error then (false, { s.tr with method := ascii "icmp" }, ans.icmp)
      else (true, s.tr, ans.udp)
    else (false, s.tr, ans.icmp)
  { s with useUdp := useUdp, tr := tr, seen := s.seen ++ [pr] }.record target pr

/-- The inner loop: the probes of one hop. -/
def probeHop (target : CStr) (answers : ℕ → ℕ → Answers) (ttl : ℕ) (useUdp : Bool) (tr : Result) :
    State :=
  (List.range tr.probesPerHop).foldl (fun s p ↦ probe target s (answers ttl p))
    ⟨useUdp, tr, hopInit ttl, false, []⟩

/-- The result after the inner loop, one hop longer. -/
def State.close (s : State) : Result := { s.tr with hops := s.tr.hops ++ [s.hop] }

/-- The outer loop from `ttl` on, for `left` values at most, with the outcomes at every hop. -/
def hopLoop (target : CStr) (answers : ℕ → ℕ → Answers) :
    ℕ → ℕ → Bool → Result → List (List ProbeOutcome) → Result × List (List ProbeOutcome)
  | _, 0, _, tr, seen => (tr, seen)
  | ttl, left + 1, useUdp, tr, seen =>
    let s := probeHop target answers ttl useUdp tr
    let seen := seen ++ [s.seen]
    if s.hopReached then (s.close, seen)
    else hopLoop target answers (ttl + 1) left s.useUdp s.close seen

/-- `resolve_target` -/
def resolveTarget (cfg : CpeAgentConfig) (targetOpt : CStr) : Option CStr :=
  let target := probeTarget cfg targetOpt
  if target = [] ∨ cpePerfTargetMax ≤ target.length ∨ (inetPton4 target).isNone then none
  else some target

/-- `max_ttl` after its checks. -/
def clampTtl (maxTtl : ℤ) : ℕ :=
  min (if maxTtl ≤ 0 then 30 else maxTtl.toNat) cpeTraceHopMax

/-- `probes_per_hop` after its checks. -/
def clampProbes (probesPerHop : ℤ) : ℕ :=
  min (if probesPerHop ≤ 0 then 1 else probesPerHop.toNat) 16

def traceInit (clock : Option WallClock) (target : CStr) (maxTtl probesPerHop : ℕ) (udp : Bool) :
    Result where
  target := copyStr cpePerfTargetMax target
  tsIso := copyStr cpePerfTsMax (isoNow clock)
  method := if udp then ascii "udp" else ascii "icmp"
  maxTtl := maxTtl
  probesPerHop := probesPerHop
  reached := false
  destRttMs := 0
  hops := []

/-- `run_trace` up to the result it stores; `udp` says whether the kernel has UDP error queues. -/
def runTrace (cfg : CpeAgentConfig) (clock : Option WallClock) (targetOpt : CStr)
    (maxTtl probesPerHop : ℤ) (udp : Bool) (answers : ℕ → ℕ → Answers) :
    Option (Result × List (List ProbeOutcome)) :=
  (resolveTarget cfg targetOpt).map fun target ↦
    hopLoop target answers 1 (clampTtl maxTtl) udp
      (traceInit clock target (clampTtl maxTtl) (clampProbes probesPerHop) udp) []

/-! ## One probe -/

def rtt : ProbeOutcome → Option ℚ
  | .error => none
  | .timeout => none
  | .hop _ rttMs => some rttMs
  | .dest _ rttMs => some rttMs

def destRtt : ProbeOutcome → Option ℚ
  | .dest _ rttMs => some rttMs
  | _ => none

/-- What a hop says of the outcomes that made it. -/
structure Recorded (h : Hop) (outs : List ProbeOutcome) : Prop where
  sent : h.sent.toNat = outs.length
  replies : h.replies.toNat = (outs.filterMap rtt).length
  timeouts : h.timeouts.toNat + (outs.filterMap rtt).length = outs.length
  loss : outs ≠ [] → h.loss = h.timeouts.toNat / h.sent.toNat
  summary : outs.filterMap rtt ≠ [] → Summarizes h.summary (outs.filterMap rtt)
  reachedDest : h.reachedDest = true ↔ outs.filterMap destRtt ≠ []

theorem recorded_hopInit (hop : ℕ) : Recorded (hopInit hop) [] where
  sent := rfl
  replies := rfl
  timeouts := rfl
  loss h := absurd rfl h
  summary h := absurd rfl h
  reachedDest := iff_of_false Bool.false_ne_true (fun h ↦ h rfl)

theorem toNat_succ {n : UInt32} {k : ℕ} (h : n.toNat = k) (hk : k < 2 ^ 32 - 1) :
    (n + 1).toNat = k + 1 := by
  have hone : (1 : UInt32).toNat = 1 := rfl
  rw [UInt32.toNat_add, hone, h]
  omega

theorem hopRecord_lost (h : Hop) (addr : CStr) (rttMs : ℚ) (reachedDest : Bool) :
    hopRecord h false addr rttMs reachedDest = { h with
      sent := h.sent + 1
      timeouts := h.timeouts + 1
      loss := if 0 < h.sent + 1 then (h.timeouts + 1).toNat / (h.sent + 1).toNat else h.loss } :=
  rfl

theorem hopRecord_reply (h : Hop) (addr : CStr) (rttMs : ℚ) (reachedDest : Bool) :
    let h' := hopRecord h true addr rttMs reachedDest
    h'.hop = h.hop ∧ h'.sent = h.sent + 1 ∧ h'.replies = h.replies + 1 ∧
      h'.timeouts = h.timeouts ∧
      h'.reachedDest = (if reachedDest then true else h.reachedDest) ∧
      h'.loss = if 0 < h.sent + 1 then (h.timeouts.toNat : ℚ) / (h.sent + 1).toNat else h.loss := by
  rw [hopRecord]
  dsimp only
  rw [Bool.not_true, if_neg Bool.false_ne_true]
  split <;> exact ⟨rfl, rfl, rfl, rfl, rfl, rfl⟩

theorem summary_hopRecord_reply (h : Hop) (addr : CStr) (rttMs : ℚ) (reachedDest : Bool) {k : ℕ}
    (hk : (h.replies + 1).toNat = k + 1) :
    (hopRecord h true addr rttMs reachedDest).summary = h.summary.push (k + 1) rttMs := by
  have hone : h.replies + 1 = 1 ↔ k + 1 = 1 := by
    rw [← UInt32.toNat_inj, hk]
    rfl
  have hpred : (h.replies + 1 - 1).toNat = k := by
    rw [UInt32.toNat_sub_of_le _ _ (UInt32.le_iff_toNat_le.mpr (by rw [hk]; exact Nat.succ_pos k)),
      hk]
    rfl
  rw [hopRecord, Summary.push]
  dsimp only
  rw [Bool.not_true, if_neg Bool.false_ne_true]
  by_cases hfirst : k + 1 = 1
  · rw [if_pos (hone.mpr hfirst), if_pos hfirst]
    rfl
  · rw [if_neg fun heq ↦ hfirst (hone.mp heq), if_neg hfirst, Hop.summary, hpred, hk]
    push_cast
    rw [add_sub_cancel_right]
    rfl

theorem Recorded.lost {h : Hop} {outs : List ProbeOutcome} (hrec : Recorded h outs)
    (hroom : outs.length < 2 ^ 32 - 1) {pr : ProbeOutcome} (hrtt : rtt pr = none)
    (hdest : destRtt pr = none) (addr : CStr) (rttMs : ℚ) (reachedDest : Bool) :
    Recorded (hopRecord h false addr rttMs reachedDest) (outs ++ [pr]) := by
  have hsent := toNat_succ hrec.sent hroom
  have hcount := hrec.timeouts
  have htimeouts := toNat_succ (rfl : h.timeouts.toNat = _) (by omega)
  have hrtts : (outs ++ [pr]).filterMap rtt = outs.filterMap rtt := by
    rw [List.filterMap_append, List.filterMap_cons_none hrtt, List.filterMap_nil, List.append_nil]
  have hdests : (outs ++ [pr]).filterMap destRtt = outs.filterMap destRtt := by
    rw [List.filterMap_append, List.filterMap_cons_none hdest, List.filterMap_nil, List.append_nil]
  have hpos : 0 < h.sent + 1 := UInt32.lt_iff_toNat_lt.mpr (by rw [hsent]; exact Nat.succ_pos _)
  rw [hopRecord_lost]
  constructor
  · rw [List.length_append, List.length_singleton]
    exact hsent
  · rw [hrtts]
    exact hrec.replies
  · rw [hrtts, htimeouts, List.length_append, List.length_singleton]
    omega
  · exact fun _ ↦ if_pos hpos
  · rw [hrtts]
    exact hrec.summary
  · rw [hdests]
    exact hrec.reachedDest

theorem Recorded.reply {h : Hop} {outs : List ProbeOutcome} (hrec : Recorded h outs)
    (hroom : outs.length < 2 ^ 32 - 1) {pr : ProbeOutcome} {rttMs : ℚ} (hrtt : rtt pr = some rttMs)
    {reachedDest : Bool} (hdest : destRtt pr = if reachedDest then some rttMs else none)
    (addr : CStr) : Recorded (hopRecord h true addr rttMs reachedDest) (outs ++ [pr]) := by
  obtain ⟨-, hsent', hreplies', htimeouts', hreached', hloss'⟩ :=
    hopRecord_reply h addr rttMs reachedDest
  have hsent := toNat_succ hrec.sent hroom
  have hcount := hrec.timeouts
  have hreplies := toNat_succ hrec.replies (by omega)
  have hsummary := summary_hopRecord_reply h addr rttMs reachedDest hreplies
  generalize hopRecord h true addr rttMs reachedDest = h' at *
  have hrtts : (outs ++ [pr]).filterMap rtt = outs.filterMap rtt ++ [rttMs] := by
    rw [List.filterMap_append, List.filterMap_cons_some hrtt, List.filterMap_nil]
  have hpos : 0 < h.sent + 1 := UInt32.lt_iff_toNat_lt.mpr (by rw [hsent]; exact Nat.succ_pos _)
  constructor
  · rw [hsent', hsent, List.length_append, List.length_singleton]
  · rw [hreplies', hreplies, hrtts, List.length_append, List.length_singleton]
  · rw [htimeouts', hrtts, List.length_append, List.length_append, List.length_singleton,
      List.length_singleton]
    omega
  · intro _
    rw [hloss', htimeouts', hsent', if_pos hpos]
  · intro _
    rw [hrtts, hsummary]
    exact Summarizes.push hrec.summary rttMs
  · rw [hreached']
    cases reachedDest with
    | true =>
      rw [if_pos rfl] at hdest
      refine iff_of_true rfl ?_
      rw [List.filterMap_append, List.filterMap_cons_some hdest]
      exact List.append_ne_nil_of_right_ne_nil _ (List.cons_ne_nil _ _)
    | false =>
      rw [if_neg Bool.false_ne_true] at hdest
      rw [if_neg Bool.false_ne_true, List.filterMap_append, List.filterMap_cons_none hdest,
        List.filterMap_nil, List.append_nil]
      exact hrec.reachedDest

/-! ## One hop -/

/-- The variables of the inner loop at the hop `ttl`, when the loop started with the result `tr`. -/
structure Inner (ttl : ℕ) (tr : Result) (s : State) : Prop where
  hop : s.hop.hop = ttl
  recorded : Recorded s.hop s.seen
  reachedDest : s.hop.reachedDest = s.hopReached
  reached : s.tr.reached = s.hopReached
  destRttMs : s.hopReached = true → (s.seen.filterMap destRtt).getLast? = some s.tr.destRttMs
  hops : s.tr.hops = tr.hops
  maxTtl : s.tr.maxTtl = tr.maxTtl
  probesPerHop : s.tr.probesPerHop = tr.probesPerHop

variable {ttl : ℕ} {tr : Result} {s : State} {target : CStr}

theorem inner_start (h : tr.reached = false) (useUdp : Bool) :
    Inner ttl tr ⟨useUdp, tr, hopInit ttl, false, []⟩ where
  hop := rfl
  recorded := recorded_hopInit ttl
  reachedDest := rfl
  reached := h
  destRttMs hr := absurd hr Bool.false_ne_true
  hops := rfl
  maxTtl := rfl
  probesPerHop := rfl

theorem Inner.record (h : Inner ttl tr s) (hroom : s.seen.length < 2 ^ 32 - 1) (useUdp : Bool)
    (method : CStr) (pr : ProbeOutcome) :
    Inner ttl tr (State.record target
      { s with
        useUdp := useUdp
        tr := { s.tr with method := method }
        seen := s.seen ++ [pr] } pr) := by
  -- an outcome that is not the destination leaves the last one that was
  have hkeep : destRtt pr = none → s.hopReached = true →
      ((s.seen ++ [pr]).filterMap destRtt).getLast? = some s.tr.destRttMs := by
    intro hnone hr
    rw [List.filterMap_append, List.filterMap_cons_none hnone, List.filterMap_nil, List.append_nil]
    exact h.destRttMs hr
  cases pr with
  | error =>
    exact ⟨h.hop, h.recorded.lost hroom rfl rfl [] 0 false, h.reachedDest, h.reached, hkeep rfl,
      h.hops, h.maxTtl, h.probesPerHop⟩
  | timeout =>
    exact ⟨h.hop, h.recorded.lost hroom rfl rfl [] 0 false, h.reachedDest, h.reached, hkeep rfl,
      h.hops, h.maxTtl, h.probesPerHop⟩
  | hop addr rttMs =>
    obtain ⟨hhop, -, -, -, hreached, -⟩ := hopRecord_reply s.hop (replyAddr addr) rttMs false
    exact ⟨hhop.trans h.hop, h.recorded.reply hroom rfl rfl _, hreached.trans h.reachedDest,
      h.reached, hkeep rfl, h.hops, h.maxTtl, h.probesPerHop⟩
  | dest addr rttMs =>
    obtain ⟨hhop, -, -, -, hreached, -⟩ := hopRecord_reply s.hop
      (if replyAddr addr ≠ [] then replyAddr addr else target) rttMs true
    refine ⟨hhop.trans h.hop, h.recorded.reply hroom rfl rfl _, hreached, rfl, fun _ ↦ ?_, h.hops,
      h.maxTtl, h.probesPerHop⟩
    have hlast : (s.seen ++ [ProbeOutcome.dest addr rttMs]).filterMap destRtt
        = s.seen.filterMap destRtt ++ [rttMs] := List.filterMap_append
    exact (congrArg List.getLast? hlast).trans List.getLast?_concat

theorem seen_record (s : State) (pr : ProbeOutcome) : (s.record target pr).seen = s.seen := by
  cases pr <;> rfl

theorem Inner.probe (h : Inner ttl tr s) (hroom : s.seen.length < 2 ^ 32 - 1) (ans : Answers) :
    Inner ttl tr (Trace.probe target s ans) ∧
      (Trace.probe target s ans).seen.length = s.seen.length + 1 := by
  rw [Trace.probe]
  by_cases hudp : s.useUdp = true
  · rw [if_pos hudp]
    by_cases herror : ans.udp = .error
    · rw [if_pos herror]
      exact ⟨h.record hroom false (ascii "icmp") ans.icmp, by rw [seen_record]; simp⟩
    · rw [if_neg herror]
      exact ⟨h.record hroom true s.tr.method ans.udp, by rw [seen_record]; simp⟩
  · rw [if_neg hudp]
    exact ⟨h.record hroom false s.tr.method ans.icmp, by rw [seen_record]; simp⟩

theorem inner_foldl (target : CStr) (answers : ℕ → ℕ → Answers) (ttl : ℕ) (useUdp : Bool)
    (h : tr.reached = false) {k : ℕ} (hk : k ≤ 16) :
    Inner ttl tr ((List.range k).foldl (fun s p ↦ probe target s (answers ttl p))
        ⟨useUdp, tr, hopInit ttl, false, []⟩) ∧
      ((List.range k).foldl (fun s p ↦ probe target s (answers ttl p))
        ⟨useUdp, tr, hopInit ttl, false, []⟩).seen.length = k := by
  induction k with
  | zero => exact ⟨inner_start h useUdp, rfl⟩
  | succ k ih =>
    obtain ⟨hinner, hlen⟩ := ih (by omega)
    rw [List.range_succ, List.foldl_append, List.foldl_cons, List.foldl_nil]
    obtain ⟨hnext, hmore⟩ := hinner.probe (by omega) (answers ttl k)
    exact ⟨hnext, hmore.trans (by rw [hlen])⟩

/-- The inner loop: the hop has recorded as many outcomes as there are probes. -/
theorem inner_probeHop (target : CStr) (answers : ℕ → ℕ → Answers) (ttl : ℕ) (useUdp : Bool)
    (h : tr.reached = false) (hprobes : tr.probesPerHop ≤ 16) :
    Inner ttl tr (probeHop target answers ttl useUdp tr) ∧
      (probeHop target answers ttl useUdp tr).seen.length = tr.probesPerHop :=
  inner_foldl target answers ttl useUdp h hprobes

/-! ## The hops -/

/-- What a finished hop says of the outcomes of its probes. -/
structure Hop.Consistent (probesPerHop : ℕ) (h : Hop) (outs : List ProbeOutcome) : Prop where
  outcomes : outs.length = probesPerHop
  sent : h.sent.toNat = probesPerHop
  answered : h.sent.toNat = h.replies.toNat + h.timeouts.toNat
  loss : h.loss = h.timeouts.toNat / h.sent.toNat
  replies : h.replies.toNat = (outs.filterMap rtt).length
  ordered : 0 < h.replies.toNat → h.minRttMs ≤ h.avgRttMs ∧ h.avgRttMs ≤ h.maxRttMs
  mean : 0 < h.replies.toNat → h.avgRttMs = (outs.filterMap rtt).sum / (outs.filterMap rtt).length
  attained : 0 < h.replies.toNat →
    h.minRttMs ∈ outs.filterMap rtt ∧ h.maxRttMs ∈ outs.filterMap rtt
  latest : 0 < h.replies.toNat → (outs.filterMap rtt).getLast? = some h.lastRttMs
  reachedDest : h.reachedDest = true ↔ outs.filterMap destRtt ≠ []

theorem Recorded.consistent {h : Hop} {outs : List ProbeOutcome} (hrec : Recorded h outs)
    {probesPerHop : ℕ} (hlen : outs.length = probesPerHop) (hpos : 0 < probesPerHop) :
    h.Consistent probesPerHop outs := by
  have hcount := hrec.timeouts
  have hsent := hrec.sent
  have hreplies := hrec.replies
  have hsummary : 0 < h.replies.toNat → Summarizes h.summary (outs.filterMap rtt) := by
    intro hr
    rw [hreplies] at hr
    exact hrec.summary (List.ne_nil_of_length_pos hr)
  exact {
    outcomes := hlen
    sent := hsent.trans hlen
    answered := by omega
    loss := hrec.loss (List.ne_nil_of_length_pos (hlen ▸ hpos))
    replies := hreplies
    ordered := fun hr ↦ ⟨(hsummary hr).min_le_avg, (hsummary hr).avg_le_max⟩
    mean := fun hr ↦ (hsummary hr).avg_eq
    attained := fun hr ↦ ⟨(hsummary hr).min_mem, (hsummary hr).max_mem⟩
    latest := fun hr ↦ (hsummary hr).last
    reachedDest := hrec.reachedDest }

/-- The hops of a result are numbered from one, and each is consistent with its outcomes. -/
structure Filed (tr : Result) (seen : List (List ProbeOutcome)) : Prop where
  numbered : ∀ i h, tr.hops[i]? = some h → h.hop = i + 1
  consistent : List.Forall₂ (Hop.Consistent tr.probesPerHop) tr.hops seen

/-- What a trace says of the outcomes at its hops. -/
structure Result.Consistent (tr : Result) (seen : List (List ProbeOutcome)) : Prop
    extends Filed tr seen where
  hop_count : 1 ≤ tr.hops.length ∧ tr.hops.length ≤ tr.maxTtl ∧ tr.maxTtl ≤ cpeTraceHopMax
  on_the_way : ∀ h ∈ tr.hops.dropLast, h.reachedDest = false
  reached : tr.reached = true ↔ ∃ h, tr.hops.getLast? = some h ∧ h.reachedDest = true
  destRttMs : tr.reached = true →
    ∃ outs, seen.getLast? = some outs ∧ (outs.filterMap destRtt).getLast? = some tr.destRttMs

/-- The variables of the outer loop at the start of the hop `ttl`. -/
structure SoFar (ttl : ℕ) (tr : Result) (seen : List (List ProbeOutcome)) : Prop
    extends Filed tr seen where
  ttl : tr.hops.length + 1 = ttl
  on_the_way : ∀ h ∈ tr.hops, h.reachedDest = false
  reached : tr.reached = false

variable {seen : List (List ProbeOutcome)}

theorem SoFar.filed_close (h : SoFar ttl tr seen) (hinner : Inner ttl tr s)
    (hlen : s.seen.length = tr.probesPerHop) (hpos : 0 < tr.probesPerHop) :
    Filed s.close (seen ++ [s.seen]) := by
  constructor
  · intro i hop hget
    rw [State.close, hinner.hops, List.getElem?_append] at hget
    -- the new hop stands behind those that have been filed, at the index `ttl - 1`
    split at hget
    · exact h.numbered i hop hget
    · next hlast =>
      rw [List.getElem?_singleton, Option.ite_none_right_eq_some] at hget
      obtain ⟨hzero, hhop⟩ := hget
      have httl := h.ttl
      rw [← Option.some.inj hhop, hinner.hop]
      omega
  · rw [State.close, hinner.hops, hinner.probesPerHop]
    exact List.rel_append h.consistent (.cons (hinner.recorded.consistent hlen hpos) .nil)

/-- A hop that the destination has not answered leads to the next one. -/
theorem SoFar.next (h : SoFar ttl tr seen) (hinner : Inner ttl tr s)
    (hlen : s.seen.length = tr.probesPerHop) (hpos : 0 < tr.probesPerHop)
    (hreached : s.hopReached = false) : SoFar (ttl + 1) s.close (seen ++ [s.seen]) where
  toFiled := h.filed_close hinner hlen hpos
  ttl := by
    rw [State.close, hinner.hops, List.length_append, List.length_singleton, h.ttl]
  on_the_way hop hmem := by
    rw [State.close, hinner.hops] at hmem
    rcases List.mem_append.mp hmem with hmem | hmem
    · exact h.on_the_way hop hmem
    · rw [List.mem_singleton.mp hmem, hinner.reachedDest, hreached]
  reached := hinner.reached.trans hreached

/-- A trace that ends with a hop the destination has answered. -/
theorem SoFar.consistent_close (h : SoFar ttl tr seen) (hinner : Inner ttl tr s)
    (hlen : s.seen.length = tr.probesPerHop) (hpos : 0 < tr.probesPerHop)
    (hmax : tr.hops.length + 1 ≤ tr.maxTtl ∧ tr.maxTtl ≤ cpeTraceHopMax)
    (hreached : s.hopReached = true) : s.close.Consistent (seen ++ [s.seen]) where
  toFiled := h.filed_close hinner hlen hpos
  hop_count := by
    rw [State.close, hinner.hops, hinner.maxTtl, List.length_append, List.length_singleton]
    exact ⟨Nat.succ_pos _, hmax⟩
  on_the_way := by
    rw [State.close, hinner.hops, List.dropLast_concat]
    exact h.on_the_way
  reached := iff_of_true (hinner.reached.trans hreached)
    ⟨s.hop, List.getLast?_concat, hinner.reachedDest.trans hreached⟩
  destRttMs _ := ⟨s.seen, List.getLast?_concat, hinner.destRttMs hreached⟩

theorem SoFar.consistent_of_end (h : SoFar ttl tr seen)
    (hmax : 1 ≤ tr.hops.length ∧ tr.hops.length ≤ tr.maxTtl ∧ tr.maxTtl ≤ cpeTraceHopMax) :
    tr.Consistent seen where
  toFiled := h.toFiled
  hop_count := hmax
  on_the_way hop hmem := h.on_the_way hop (List.mem_of_mem_dropLast hmem)
  reached := by
    refine iff_of_false (fun hr ↦ Bool.false_ne_true (h.reached.symm.trans hr)) ?_
    rintro ⟨hop, hlast, hdest⟩
    exact Bool.false_ne_true ((h.on_the_way hop (List.mem_of_getLast? hlast)).symm.trans hdest)
  destRttMs hr := absurd (h.reached.symm.trans hr) Bool.false_ne_true

theorem consistent_hopLoop (answers : ℕ → ℕ → Answers) (left : ℕ) (useUdp : Bool)
    (h : SoFar ttl tr seen) (hprobes : 0 < tr.probesPerHop ∧ tr.probesPerHop ≤ 16)
    (hmax : tr.hops.length + left ≤ tr.maxTtl ∧ tr.maxTtl ≤ cpeTraceHopMax)
    (hsome : 1 ≤ tr.hops.length + left) :
    (hopLoop target answers ttl left useUdp tr seen).1.maxTtl = tr.maxTtl ∧
      (hopLoop target answers ttl left useUdp tr seen).1.probesPerHop = tr.probesPerHop ∧
      (hopLoop target answers ttl left useUdp tr seen).1.Consistent
        (hopLoop target answers ttl left useUdp tr seen).2 := by
  -- induction on the hops that are left; what carries it is the state at the start of a hop
  induction left generalizing ttl useUdp tr seen with
  | zero => exact ⟨rfl, rfl, h.consistent_of_end ⟨hsome, hmax⟩⟩
  | succ left ih =>
    obtain ⟨hinner, hlen⟩ := inner_probeHop target answers ttl useUdp h.reached hprobes.2
    rw [hopLoop]
    split
    · next hreached =>
      exact ⟨hinner.maxTtl, hinner.probesPerHop,
        h.consistent_close hinner hlen hprobes.1 ⟨by omega, hmax.2⟩ hreached⟩
    · next hreached =>
      have hnext := h.next hinner hlen hprobes.1 (Bool.eq_false_of_not_eq_true hreached)
      have hcount : (probeHop target answers ttl useUdp tr).close.hops.length
          = tr.hops.length + 1 := by
        rw [State.close, hinner.hops, List.length_append, List.length_singleton]
      have hmaxTtl : (probeHop target answers ttl useUdp tr).close.maxTtl = tr.maxTtl :=
        hinner.maxTtl
      have hprobesPerHop : (probeHop target answers ttl useUdp tr).close.probesPerHop
          = tr.probesPerHop := hinner.probesPerHop
      rw [← hmaxTtl, ← hprobesPerHop]
      refine ih _ hnext ?_ ?_ ?_
      · rwa [hprobesPerHop]
      · rw [hcount, hmaxTtl]
        omega
      · omega

theorem clampTtl_bounds (maxTtl : ℤ) : 1 ≤ clampTtl maxTtl ∧ clampTtl maxTtl ≤ cpeTraceHopMax := by
  rw [clampTtl, cpeTraceHopMax]
  split <;> omega

theorem clampProbes_bounds (probesPerHop : ℤ) :
    0 < clampProbes probesPerHop ∧ clampProbes probesPerHop ≤ 16 := by
  rw [clampProbes]
  split <;> omega

/-- The result of a trace is consistent, whatever its arguments and whatever its probes bring
back. -/
theorem runTrace_consistent (cfg : CpeAgentConfig) (clock : Option WallClock) (targetOpt : CStr)
    (maxTtl probesPerHop : ℤ) (udp : Bool) (answers : ℕ → ℕ → Answers) :
    ∀ res ∈ runTrace cfg clock targetOpt maxTtl probesPerHop udp answers,
      res.1.maxTtl = clampTtl maxTtl ∧ res.1.probesPerHop = clampProbes probesPerHop ∧
        res.1.Consistent res.2 := by
  intro res hres
  rw [runTrace, Option.mem_def, Option.map_eq_some_iff] at hres
  obtain ⟨target, -, rfl⟩ := hres
  obtain ⟨hpos, hmax⟩ := clampTtl_bounds maxTtl
  refine consistent_hopLoop answers (clampTtl maxTtl) udp ?_ (clampProbes_bounds probesPerHop)
    ⟨(Nat.zero_add _).le, hmax⟩ (hpos.trans (Nat.zero_add _).ge)
  exact {
    numbered := fun i h hget ↦ nomatch hget
    consistent := .nil
    ttl := rfl
    on_the_way := fun h hmem ↦ absurd hmem List.not_mem_nil
    reached := rfl }

/-- UDP fails at the second probe of the first hop, the destination answers at the second hop. -/
def answersOfFallback (ttl p : ℕ) : Answers :=
  { udp := if p = 0 then .hop none 3 else .error
    icmp := if ttl = 1 then .timeout else .dest none (5 - p) }

/-- A trace with a fallback. -/
theorem runTrace_consistent_fallback :
    ∃ tr seen,
      runTrace cpeAgentConfigDefaults none (ascii "10.0.0.1") 0 2 true answersOfFallback
        = some (tr, seen) ∧
      seen = [[.hop none 3, .timeout], [.dest none 5, .dest none 4]] ∧
      tr.maxTtl = 30 ∧ tr.reached = true ∧ tr.destRttMs = 4 ∧ tr.Consistent seen := by
  have hrun : (runTrace cpeAgentConfigDefaults none (ascii "10.0.0.1") 0 2 true
      answersOfFallback).map (fun res ↦ (res.1.maxTtl, res.1.reached, res.1.destRttMs, res.2))
      = some (30, true, 4, [[.hop none 3, .timeout], [.dest none 5, .dest none 4]]) := by
    decide +kernel
  obtain ⟨⟨tr, seen⟩, hres, heq⟩ := Option.map_eq_some_iff.mp hrun
  simp only [Prod.mk.injEq] at heq
  obtain ⟨hmax, hreached, hdest, hseen⟩ := heq
  obtain ⟨-, -, hconsistent⟩ := runTrace_consistent _ _ _ _ _ _ _ _ hres
  exact ⟨tr, seen, hres, hseen, hmax, hreached, hdest, hconsistent⟩

end NetForensics.Trace
