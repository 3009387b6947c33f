import NetForensics.Agent.Spool
import NetForensics.Correlate.NatLine

/-!
# Feeding conntrack messages

`cpe_agent_feed_nfct` hands a buffer to the conntrack parser, takes the events off its queue, and
pushes a `cpe_nat` line for each that has an observation. The queue has room for 32 events and drops
what comes later, and it is emptied only after the whole buffer has been parsed.

The parser is a library. What is used of it: the events it decodes from a buffer, and its queue.
-/

namespace NetForensics

/-- `NFCT_MAX_Q` -/
def nfctMaxQ : ℕ := 32

/-- The conntrack library. -/
structure NfctLib where
  /-- the events in a buffer -/
  decode : List UInt8 → List NfctEvent
  forensics : ForensicsLib

/-- `nfct_feed_input`: the queue afterwards. -/
def nfctFeedInput (lib : NfctLib) (queue : List NfctEvent) (data : List UInt8) : List NfctEvent :=
  (queue ++ lib.decode data).take nfctMaxQ

/-- The fields of `struct cpe_agent` around the parser. -/
structure NfctAgent where
  agent : CpeAgent
  /-- the queue of the parser, unless `nfct` is NULL -/
  nfct : Option (List NfctEvent)
  nfctObs : UInt64

def natLine (lib : NfctLib) (routerId : CStr) (tsMs : UInt64) (nev : NfctEvent) : Option CStr :=
  match nfObsFromNfct lib.forensics nev (some routerId) tsMs with
  | none => none
  | some obs => nfObsFormat obs cpeNdjsonLineMax

/-- One turn of the loop of `cpe_agent_feed_nfct`, with the lines that have been pushed. -/
def feedEvent (lib : NfctLib) (tsMs : UInt64) (s : NfctAgent × List CStr) (nev : NfctEvent) :
    NfctAgent × List CStr :=
  match natLine lib s.1.agent.cfg.routerId tsMs nev with
  | none => s
  | some line =>
    let (agent, rc) := s.1.agent.spoolPushLine line
    if rc = 0 then
      ({ s.1 with agent := agent, nfctObs := s.1.nfctObs + 1 }, s.2 ++ [line])
    else ({ s.1 with agent := agent }, s.2)

namespace NfctAgent

/-- `cpe_agent_feed_nfct`: its result, and the lines that have been pushed. -/
def feedNfct (a : NfctAgent) (lib : NfctLib) (data : List UInt8) (tsMs : UInt64) :
    NfctAgent × ℤ × List CStr :=
  match a.nfct with
  | none => (a, -1, [])
  | some queue =>
    if data = [] then (a, -1, [])
    else
      let (a, lines) := (nfctFeedInput lib queue data).foldl (feedEvent lib tsMs) (a, [])
      ({ a with nfct := some [] }, lines.length, lines)

def feedEach (a : NfctAgent) (lib : NfctLib) (tsMs : UInt64) :
    List (List UInt8) → NfctAgent × List CStr
  | [] => (a, [])
  | m :: ms =>
    let (a, _, lines) := a.feedNfct lib m tsMs
    let (a, rest) := a.feedEach lib tsMs ms
    (a, lines ++ rest)

end NfctAgent

/-- The library decodes a buffer of messages message by message, and one message brings no more
events than the queue has room for. -/
structure NfctLib.Decodes (lib : NfctLib) (msgs : List (List UInt8)) : Prop where
  flatten : lib.decode msgs.flatten = msgs.flatMap lib.decode
  room : ∀ m ∈ msgs, (lib.decode m).length ≤ nfctMaxQ
  ne_nil : ∀ m ∈ msgs, m ≠ []

/-! ## Draining the queue -/

section Drain

variable {lib : NfctLib} {tsMs : UInt64}

/-- What has been done to the agent when some lines have been pushed. -/
structure Pushed (a : NfctAgent) (lines : List CStr) (b : NfctAgent) : Prop where
  spools : b.agent.Spools
  routerId : b.agent.cfg.routerId = a.agent.cfg.routerId
  nfct : b.nfct = a.nfct
  nfctObs : b.nfctObs = a.nfctObs + UInt64.ofNat lines.length

theorem Pushed.trans {a b c : NfctAgent} {xs ys : List CStr} (h : Pushed a xs b)
    (h' : Pushed b ys c) : Pushed a (xs ++ ys) c where
  spools := h'.spools
  routerId := h'.routerId.trans h.routerId
  nfct := h'.nfct.trans h.nfct
  nfctObs := by
    rw [h'.nfctObs, h.nfctObs, List.length_append, UInt64.ofNat_add, UInt64.add_assoc]

theorem pushed_nil {a : NfctAgent} (h : a.agent.Spools) : Pushed a [] a :=
  ⟨h, rfl, rfl, (UInt64.add_zero _).symm⟩

variable (lib tsMs) in
theorem feedEvent_of_spools {s : NfctAgent × List CStr} (h : s.1.agent.Spools) (nev : NfctEvent) :
    let new := (natLine lib s.1.agent.cfg.routerId tsMs nev).toList
    (feedEvent lib tsMs s nev).2 = s.2 ++ new ∧ Pushed s.1 new (feedEvent lib tsMs s nev).1 := by
  rw [feedEvent]
  cases natLine lib s.1.agent.cfg.routerId tsMs nev with
  | none => exact ⟨(List.append_nil _).symm, pushed_nil h⟩
  | some line =>
    obtain ⟨hret, hspools⟩ := CpeAgent.spoolPushLine_of_spools h line
    dsimp only
    rw [if_pos hret]
    exact ⟨rfl, hspools, by rw [CpeAgent.spoolPushLine_cfg], rfl, rfl⟩

variable (lib tsMs) in
theorem drain_of_spools (events : List NfctEvent) {s : NfctAgent × List CStr}
    (h : s.1.agent.Spools) :
    let new := events.filterMap (natLine lib s.1.agent.cfg.routerId tsMs)
    (events.foldl (feedEvent lib tsMs) s).2 = s.2 ++ new ∧
      Pushed s.1 new (events.foldl (feedEvent lib tsMs) s).1 := by
  -- a push leaves the router id and the room in the spool, so the next event meets the same agent
  induction events generalizing s with
  | nil => exact ⟨(List.append_nil _).symm, pushed_nil h⟩
  | cons nev events ih =>
    obtain ⟨hlines, hpushed⟩ := feedEvent_of_spools lib tsMs h nev
    obtain ⟨hrest, hall⟩ := ih hpushed.spools
    have hnew : (nev :: events).filterMap (natLine lib s.1.agent.cfg.routerId tsMs)
        = (natLine lib s.1.agent.cfg.routerId tsMs nev).toList
          ++ events.filterMap (natLine lib s.1.agent.cfg.routerId tsMs) := by
      rw [List.filterMap_cons]
      cases natLine lib s.1.agent.cfg.routerId tsMs nev <;> rfl
    rw [hpushed.routerId] at hrest hall
    rw [List.foldl_cons, hnew, hrest, hlines, List.append_assoc]
    exact ⟨rfl, hpushed.trans hall⟩

/-- Nothing comes of an event when the spool does not take lines. -/
theorem feedEvent_of_not_spools {s : NfctAgent × List CStr} (h : ¬ s.1.agent.Spools)
    (nev : NfctEvent) : feedEvent lib tsMs s nev = s := by
  rw [feedEvent]
  cases natLine lib s.1.agent.cfg.routerId tsMs nev with
  | none => rfl
  | some line =>
    dsimp only
    rw [CpeAgent.spoolPushLine_of_not_spools h]
    rfl

theorem drain_of_not_spools (events : List NfctEvent) {s : NfctAgent × List CStr}
    (h : ¬ s.1.agent.Spools) : events.foldl (feedEvent lib tsMs) s = s := by
  induction events with
  | nil => rfl
  | cons nev events ih => rw [List.foldl_cons, feedEvent_of_not_spools h, ih]

end Drain

/-! ## One call and many -/

namespace NfctAgent

variable {a : NfctAgent} {lib : NfctLib} {tsMs : UInt64}

variable (lib tsMs) in
/-- A call pushes the lines of the events that are on the queue, and leaves it empty. -/
theorem feedNfct_of_spools (hqueue : a.nfct = some []) (h : a.agent.Spools) {data : List UInt8}
    (hdata : data ≠ []) :
    let new := ((lib.decode data).take nfctMaxQ).filterMap (natLine lib a.agent.cfg.routerId tsMs)
    (a.feedNfct lib data tsMs).2.2 = new ∧ Pushed a new (a.feedNfct lib data tsMs).1 := by
  obtain ⟨hlines, hpushed⟩ := drain_of_spools lib tsMs
    ((lib.decode data).take nfctMaxQ) (s := (a, [])) h
  rw [feedNfct, hqueue]
  dsimp only
  rw [if_neg hdata, nfctFeedInput, List.nil_append]
  exact ⟨hlines, hpushed.spools, hpushed.routerId, hqueue.symm, hpushed.nfctObs⟩

variable (lib tsMs) in
/-- Without a spool nothing is pushed and nothing is counted. -/
theorem feedNfct_of_not_spools (hqueue : a.nfct = some []) (h : ¬ a.agent.Spools)
    (data : List UInt8) :
    (a.feedNfct lib data tsMs).2.2 = [] ∧ (a.feedNfct lib data tsMs).1 = a := by
  rw [feedNfct, hqueue]
  dsimp only
  by_cases hdata : data = []
  · rw [if_pos hdata]
    exact ⟨rfl, rfl⟩
  · rw [if_neg hdata, drain_of_not_spools _ h]
    exact ⟨rfl, by rw [← hqueue]⟩

variable (lib tsMs) in
/-- With one message a call, the lines of all events are pushed. -/
theorem feedEach_of_spools (hqueue : a.nfct = some []) (h : a.agent.Spools)
    {msgs : List (List UInt8)} (hroom : ∀ m ∈ msgs, (lib.decode m).length ≤ nfctMaxQ)
    (hne : ∀ m ∈ msgs, m ≠ []) :
    let new := (msgs.flatMap lib.decode).filterMap (natLine lib a.agent.cfg.routerId tsMs)
    (a.feedEach lib tsMs msgs).2 = new ∧ Pushed a new (a.feedEach lib tsMs msgs).1 := by
  induction msgs generalizing a with
  | nil => exact ⟨rfl, pushed_nil h⟩
  | cons m ms ih =>
    obtain ⟨hlines, hpushed⟩ := feedNfct_of_spools lib tsMs hqueue h
      (hne m List.mem_cons_self)
    obtain ⟨hrest, hall⟩ := ih (hpushed.nfct.trans hqueue) hpushed.spools
      (fun k hk ↦ hroom k (List.mem_cons_of_mem m hk)) fun k hk ↦ hne k (List.mem_cons_of_mem m hk)
    rw [List.take_of_length_le (hroom m List.mem_cons_self)] at hlines hpushed
    rw [hpushed.routerId] at hrest hall
    rw [feedEach, List.flatMap_cons, List.filterMap_append]
    dsimp only
    rw [hrest, hlines]
    exact ⟨rfl, hpushed.trans hall⟩

theorem feedEach_of_not_spools (hqueue : a.nfct = some []) (h : ¬ a.agent.Spools)
    (msgs : List (List UInt8)) : a.feedEach lib tsMs msgs = (a, []) := by
  induction msgs with
  | nil => rfl
  | cons m ms ih =>
    obtain ⟨hlines, hsame⟩ := feedNfct_of_not_spools lib tsMs hqueue h m
    rw [feedEach]
    dsimp only
    rw [hlines, hsame, ih]
    rfl

/-- One call with all messages pushes the same lines, in the same order, and adds the same to the
count of observations as a call for each. -/
def FeedsAll (a : NfctAgent) (lib : NfctLib) (tsMs : UInt64) (msgs : List (List UInt8)) : Prop :=
  (a.feedNfct lib msgs.flatten tsMs).2.2 = (a.feedEach lib tsMs msgs).2 ∧
    (a.feedNfct lib msgs.flatten tsMs).1.nfctObs = (a.feedEach lib tsMs msgs).1.nfctObs

/-- What is lost is the lines of the events behind the first 32. -/
theorem feedsAll_iff_of_spools (hqueue : a.nfct = some []) (h : a.agent.Spools)
    {msgs : List (List UInt8)} (hmsgs : lib.Decodes msgs) :
    a.FeedsAll lib tsMs msgs ↔ ((msgs.flatMap lib.decode).drop nfctMaxQ).filterMap
      (natLine lib a.agent.cfg.routerId tsMs) = [] := by
  by_cases hnil : msgs = []
  · subst hnil
    refine iff_of_true ⟨?_, ?_⟩ (by simp)
    · rw [feedNfct, hqueue]
      rfl
    · rw [feedNfct, hqueue]
      rfl
  · have hdata : msgs.flatten ≠ [] := by
      obtain ⟨m, ms, rfl⟩ := List.exists_cons_of_ne_nil hnil
      rw [List.flatten_cons]
      exact List.append_ne_nil_of_left_ne_nil (hmsgs.ne_nil m List.mem_cons_self) _
    obtain ⟨hlines, hpushed⟩ := feedNfct_of_spools lib tsMs hqueue h hdata
    obtain ⟨heach, hall⟩ := feedEach_of_spools lib tsMs hqueue h hmsgs.room
      hmsgs.ne_nil
    have hsplit := congrArg (List.filterMap (natLine lib a.agent.cfg.routerId tsMs))
      (List.take_append_drop nfctMaxQ (msgs.flatMap lib.decode))
    rw [List.filterMap_append] at hsplit
    rw [hmsgs.flatten] at hlines hpushed
    rw [FeedsAll, hlines, heach, hpushed.nfctObs, hall.nfctObs, ← hsplit]
    constructor
    · rintro ⟨hsame, -⟩
      exact List.self_eq_append_right.mp hsame
    · intro hnone
      rw [hnone, List.append_nil]
      exact ⟨rfl, rfl⟩

theorem feedsAll_of_not_spools (hqueue : a.nfct = some []) (h : ¬ a.agent.Spools)
    (msgs : List (List UInt8)) : a.FeedsAll lib tsMs msgs := by
  obtain ⟨hlines, hsame⟩ := feedNfct_of_not_spools lib tsMs hqueue h
    msgs.flatten
  rw [FeedsAll, hlines, hsame, feedEach_of_not_spools hqueue h]
  exact ⟨rfl, rfl⟩

theorem natLine_eq_none_iff (routerId : CStr) (nev : NfctEvent) :
    natLine lib routerId tsMs nev = none ↔
      nfObsFromNfct lib.forensics nev (some routerId) tsMs = none := by
  rw [natLine]
  cases nfObsFromNfct lib.forensics nev (some routerId) tsMs with
  | none => exact iff_of_true rfl rfl
  | some obs => exact iff_of_false (by simp [nfObsFormat, cpeNdjsonLineMax]) (by simp)

/-- A buffer of messages is fed without a loss exactly when the spool takes no lines at all, or no
event behind the first 32 has an observation. -/
theorem feedsAll_iff (a : NfctAgent) (lib : NfctLib) (tsMs : UInt64) (msgs : List (List UInt8))
    (hqueue : a.nfct = some []) (hmsgs : lib.Decodes msgs) :
    a.FeedsAll lib tsMs msgs ↔ ¬ a.agent.Spools ∨
      ∀ nev ∈ (msgs.flatMap lib.decode).drop nfctMaxQ,
        nfObsFromNfct lib.forensics nev (some a.agent.cfg.routerId) tsMs = none := by
  by_cases h : a.agent.Spools
  · rw [or_iff_right (not_not.mpr h), feedsAll_iff_of_spools hqueue h hmsgs,
      List.filterMap_eq_nil_iff]
    exact forall₂_congr fun nev _ ↦ natLine_eq_none_iff _ nev
  · exact iff_of_true (feedsAll_of_not_spools hqueue h msgs) (Or.inl h)

end NfctAgent

/-- A library for messages of 20 bytes, each about the same binding. -/
def sameBinding : NfctLib where
  decode data := List.replicate (data.length / 20) (natEvent .new 6 40000)
  forensics := plainForensics

def blankMessages (k : ℕ) : List (List UInt8) := List.replicate k (List.replicate 20 0)

theorem decode_blankMessages (k : ℕ) :
    (blankMessages k).flatMap sameBinding.decode = List.replicate k (natEvent .new 6 40000) := by
  induction k with
  | zero => rfl
  | succ k ih =>
    rw [blankMessages, List.replicate_succ, List.flatMap_cons]
    exact congrArg (natEvent .new 6 40000 :: ·) ih

theorem decodes_blankMessages (k : ℕ) : sameBinding.Decodes (blankMessages k) where
  flatten := by
    have hlen : (blankMessages k).flatten.length = k * 20 := by
      simp [blankMessages]
    have hdecode : sameBinding.decode (blankMessages k).flatten
        = List.replicate ((blankMessages k).flatten.length / 20) (natEvent .new 6 40000) := rfl
    rw [decode_blankMessages, hdecode, hlen, Nat.mul_div_cancel k (by decide)]
  room m hm := by
    rw [List.eq_of_mem_replicate hm]
    decide
  ne_nil m hm := by
    rw [List.eq_of_mem_replicate hm]
    decide

def createdNfct : NfctAgent := ⟨CpeAgent.create, some [], 0⟩

/-- As many messages as the queue has room for. -/
theorem feedsAll_queue : createdNfct.FeedsAll sameBinding 1000 (blankMessages 32) := by
  refine (NfctAgent.feedsAll_iff _ _ _ _ rfl (decodes_blankMessages 32)).mpr (Or.inr ?_)
  rw [decode_blankMessages]
  exact fun nev hnev ↦ absurd hnev (by simp [nfctMaxQ])

/-- The event of one message more is lost. -/
theorem not_feedsAll_queue :
    sameBinding.Decodes (blankMessages 33) ∧
      ¬ createdNfct.FeedsAll sameBinding 1000 (blankMessages 33) := by
  refine ⟨decodes_blankMessages 33, fun h ↦ ?_⟩
  have hlost := (NfctAgent.feedsAll_iff_of_spools rfl (by decide) (decodes_blankMessages 33)).mp h
  rw [decode_blankMessages] at hlost
  have hline : natLine sameBinding createdNfct.agent.cfg.routerId 1000 (natEvent .new 6 40000)
      = none := List.filterMap_eq_nil_iff.mp hlost _ (by simp [nfctMaxQ])
  exact absurd ((NfctAgent.natLine_eq_none_iff _ _).mp hline) (by decide)

end NetForensics
