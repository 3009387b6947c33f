import NetForensics.Correlate.Obs
import NetForensics.Util.Run

/-!
# Collecting observations from IPFIX messages

`nf_ipfix_collect_flows` feeds one message to the decoder and then empties the decoder's queue into
an array. The queue outlives the call, so what does not fit could wait for the next one. The loop
takes an event off the queue before it looks at the room left, though, and the record it breaks on
is gone.

The decoder is a library. Of it the model keeps the queue, first in first out, and what it does to
the queue: a message is refused, or its events are appended.
-/

namespace NetForensics

/-- `ev.type`, as far as it is told apart. -/
inductive IpfixEventType where
  | dataRecord | other
  deriving DecidableEq

/-- `ipfix_event_t`, over the records of the library. -/
structure IpfixEvent (ρ : Type*) where
  type : IpfixEventType
  /-- `message.export_time` -/
  exportTime : UInt32
  record : ρ

section Collect

/-! ## One call -/

variable {ρ : Type*} (flowKey : ρ → Option IpfixFlowKey) (routerId : Option CStr)

def obsOfRecord (ev : IpfixEvent ρ) : Option NfFlowObs :=
  nfObsFromIpfix (flowKey ev.record) routerId (UInt64.ofNat ev.exportTime.toNat * 1000)

/-- The loop of `nf_ipfix_collect_flows`, with `n` observations written so far: the observations
it adds, and the queue it leaves. -/
def collectLoop (maxOut : ℕ) : ℕ → List (IpfixEvent ρ) → List NfFlowObs × List (IpfixEvent ρ)
  | _, [] => ([], [])
  | n, ev :: queue =>
    if ev.type ≠ .dataRecord then collectLoop maxOut n queue
    else if maxOut ≤ n then ([], queue)
    else
      match obsOfRecord flowKey routerId ev with
      | some obs =>
        let (out, rest) := collectLoop maxOut (n + 1) queue
        (obs :: out, rest)
      | none => collectLoop maxOut n queue

/-- `nf_ipfix_collect_flows`: the observations, unless it fails, and the queue. `fed` is what
`ipfix_feed_message` makes of the message: nothing, when it refuses it, or the events it appends. -/
def nfIpfixCollectFlows (queue : List (IpfixEvent ρ)) (fed : Option (List (IpfixEvent ρ)))
    (maxOut : ℕ) : Option (List NfFlowObs) × List (IpfixEvent ρ) :=
  if maxOut = 0 then (none, queue)
  else
    match fed with
    | none => (none, queue)
    | some events =>
      let (out, rest) := collectLoop flowKey routerId maxOut 0 (queue ++ events)
      (some out, rest)

/-! ## What a queue holds -/

/-- The observation in an event: only data records have one, and only those with a 5-tuple. -/
def obsOfEvent (ev : IpfixEvent ρ) : Option NfFlowObs :=
  if ev.type = .dataRecord then obsOfRecord flowKey routerId ev else none

/-- The observations in a sequence of events, in order. -/
def observations (events : List (IpfixEvent ρ)) : List NfFlowObs :=
  events.filterMap (obsOfEvent flowKey routerId)

/-- What follows the first `room` observations. -/
def afterObservations : ℕ → List (IpfixEvent ρ) → List (IpfixEvent ρ)
  | 0, events => events
  | _ + 1, [] => []
  | room + 1, ev :: events =>
    if (obsOfEvent flowKey routerId ev).isSome then afterObservations room events
    else afterObservations (room + 1) events

/-- The first data record after `room` observations. -/
def nextRecord (room : ℕ) (events : List (IpfixEvent ρ)) : Option (IpfixEvent ρ) :=
  (afterObservations flowKey routerId room events).find? fun ev ↦ ev.type == .dataRecord

variable {flowKey routerId}

theorem observations_append (events events' : List (IpfixEvent ρ)) :
    observations flowKey routerId (events ++ events')
      = observations flowKey routerId events ++ observations flowKey routerId events' :=
  List.filterMap_append

/-- The loop keeps every observation but the one in the record it breaks on. -/
theorem observations_collectLoop (maxOut : ℕ) (queue : List (IpfixEvent ρ)) {n room : ℕ}
    (h : n + room = maxOut) :
    observations flowKey routerId queue
      = (collectLoop flowKey routerId maxOut n queue).1
        ++ ((nextRecord flowKey routerId room queue).bind (obsOfRecord flowKey routerId)).toList
        ++ observations flowKey routerId (collectLoop flowKey routerId maxOut n queue).2 := by
  induction queue generalizing n room with
  | nil =>
    cases room with
    | zero => rfl
    | succ room => rfl
  | cons ev queue ih =>
    rw [collectLoop, observations, List.filterMap_cons]
    by_cases hdata : ev.type = .dataRecord
    · have hobs : obsOfEvent flowKey routerId ev = obsOfRecord flowKey routerId ev := by
        rw [obsOfEvent, if_pos hdata]
      rw [if_neg (not_not.mpr hdata), hobs]
      cases room with
      | zero =>
        -- no room: the record is taken from the queue and the loop breaks
        have hnext : nextRecord flowKey routerId 0 (ev :: queue) = some ev := by
          rw [nextRecord, afterObservations, List.find?_cons_of_pos (by rw [hdata]; rfl)]
        have hfull : maxOut ≤ n := by omega
        rw [if_pos hfull, hnext]
        cases hrec : obsOfRecord flowKey routerId ev with
        | none => simp [hrec, observations]
        | some obs => simp [hrec, observations]
      | succ room =>
        rw [if_neg (by omega)]
        cases hrec : obsOfRecord flowKey routerId ev with
        | none =>
          have hnext : nextRecord flowKey routerId (room + 1) (ev :: queue)
              = nextRecord flowKey routerId (room + 1) queue := by
            rw [nextRecord, afterObservations, hobs, hrec, nextRecord]
            rfl
          rw [hnext]
          exact ih h
        | some obs =>
          have hnext : nextRecord flowKey routerId (room + 1) (ev :: queue)
              = nextRecord flowKey routerId room queue := by
            rw [nextRecord, afterObservations, hobs, hrec, nextRecord]
            rfl
          rw [hnext]
          exact congrArg (obs :: ·) (ih (by omega))
    · have hobs : obsOfEvent flowKey routerId ev = none := by rw [obsOfEvent, if_neg hdata]
      have hnext : nextRecord flowKey routerId room (ev :: queue)
          = nextRecord flowKey routerId room queue := by
        cases room with
        | zero =>
          rw [nextRecord, afterObservations, List.find?_cons_of_neg (by simpa using hdata),
            nextRecord, afterObservations]
        | succ room =>
          rw [nextRecord, afterObservations, hobs, nextRecord]
          rfl
      rw [if_pos hdata, hobs, hnext]
      exact ih h

end Collect

/-! ## Runs -/

/-- One call on a context: what the decoder makes of the message, and the room in the array. -/
structure CollectCall (ρ : Type*) where
  fed : Option (List (IpfixEvent ρ))
  maxOut : ℕ

/-- A context with everything that has gone in and come out of it: the queue, the events of the
accepted messages, and the observations returned. -/
structure Collector (ρ : Type*) where
  queue : List (IpfixEvent ρ)
  accepted : List (IpfixEvent ρ)
  returned : List NfFlowObs

namespace Collector

section

variable {ρ : Type*} (flowKey : ρ → Option IpfixFlowKey) (routerId : Option CStr)

def init : Collector ρ := ⟨[], [], []⟩

/-- `nf_ipfix_collect_flows`, recording the events it takes in and the observations it returns. A
call without room fails before it looks at the message. -/
def step (c : Collector ρ) (call : CollectCall ρ) : Collector ρ :=
  let (out, queue) := nfIpfixCollectFlows flowKey routerId c.queue call.fed call.maxOut
  { queue := queue
    accepted := c.accepted ++ (if call.maxOut = 0 then [] else call.fed.getD [])
    returned := c.returned ++ out.getD [] }

/-- Nothing is lost: what was returned, followed by what is still queued, is what was taken in. -/
def Complete (c : Collector ρ) : Prop :=
  c.returned ++ observations flowKey routerId c.queue = observations flowKey routerId c.accepted

/-- If the call gets as far as the loop, then the first data record after as many observations as
there is room for, if there is one, has no observation in it. -/
def StopsClean (c : Collector ρ) (call : CollectCall ρ) : Prop :=
  ∀ events ∈ call.fed, call.maxOut ≠ 0 →
    ∀ ev ∈ nextRecord flowKey routerId call.maxOut (c.queue ++ events),
      obsOfRecord flowKey routerId ev = none

variable {flowKey routerId}

/-- One call keeps the account complete exactly when it stops clean. -/
theorem complete_step_iff (c : Collector ρ) (h : c.Complete flowKey routerId)
    (call : CollectCall ρ) :
    (c.step flowKey routerId call).Complete flowKey routerId ↔
      c.StopsClean flowKey routerId call := by
  obtain ⟨fed, maxOut⟩ := call
  simp only [Complete, step, nfIpfixCollectFlows, StopsClean]
  by_cases hroom : maxOut = 0
  · simp only [if_pos hroom, Option.getD_none, List.append_nil]
    exact iff_of_true h fun _ _ hne ↦ absurd hroom hne
  · simp only [if_neg hroom]
    cases fed with
    | none =>
      simp only [Option.getD_none, List.append_nil]
      exact iff_of_true h fun _ hmem ↦ absurd hmem (by simp)
    | some events =>
      have hloop : observations flowKey routerId (c.queue ++ events) = _ :=
        observations_collectLoop maxOut (c.queue ++ events) (Nat.zero_add maxOut)
      simp only [Option.getD_some]
      have htaken : observations flowKey routerId (c.accepted ++ events)
          = c.returned ++ observations flowKey routerId (c.queue ++ events) := by
        rw [observations_append, ← h, List.append_assoc, ← observations_append]
      rw [htaken, hloop, List.append_assoc, List.append_assoc, List.append_cancel_left_eq]
      -- the two sides differ by the record the loop breaks on
      cases hnext : nextRecord flowKey routerId maxOut (c.queue ++ events) with
      | none => simp [hnext]
      | some ev => cases hrec : obsOfRecord flowKey routerId ev <;> simp [hroom, hnext, hrec]

theorem complete_init : (init : Collector ρ).Complete flowKey routerId := rfl

/-- Over every sequence of messages and array sizes, nothing is ever lost if and only if every call
stops clean. -/
theorem complete_run_iff (calls : List (CollectCall ρ)) :
    AllStates (step flowKey routerId) (Complete flowKey routerId) init calls ↔
      AllSteps (step flowKey routerId) (StopsClean flowKey routerId) init calls :=
  allStates_iff_allSteps complete_step_iff complete_init calls

end

/-- The flow from 10.0.0.1 port 40000 to 1.1.1.1 port 443, as a library that finds the key of every
record would report it. -/
def webFlow : IpfixFlowKey := ⟨167772161, 16843009, 40000, 443, 6, true, 1000, true⟩

/-- Two records with a 5-tuple in one message, an array of one, and then a message with nothing in
it: one observation is returned, and the other is neither returned nor queued. -/
theorem not_complete_two_records :
    ¬ AllStates (step (fun _ : Unit ↦ some webFlow) (some (ascii "core-r1")))
      (Complete (fun _ : Unit ↦ some webFlow) (some (ascii "core-r1"))) init
      [⟨some [⟨.dataRecord, 1, ()⟩, ⟨.dataRecord, 1, ()⟩], 1⟩, ⟨some [], 1⟩] := by
  intro h
  have hlen := congrArg List.length h.2.2
  revert hlen
  decide

end Collector

end NetForensics
