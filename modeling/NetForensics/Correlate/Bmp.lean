import NetForensics.Correlate.Obs
import NetForensics.Util.Run

/-!
# BMP observations

`nf_bmp_obs_t` is what the collector keeps of an event of a BGP monitoring session, and
`nf_bmp_obs_format` prints it as one line. The events come from the BMP library.

`drain_obs` looks for room before it takes an event off the queue. So nothing is lost between two
calls, however small the arrays are.
-/

namespace NetForensics

/-- `bmp_event_type_t`; the collector has no observation for anything else. -/
inductive BmpEventType where
  | initiation | termination | peerUp | peerDown | routeMonitoring | statistics | queueOverflow
  | error | other
  deriving DecidableEq

/-- `bmp_peer_header_t`, with the fields the collector reads. -/
structure BmpPeerHeader where
  peerAs : UInt32
  peerBgpId : UInt32
  isIpv6 : Bool
  peerAddress : In6Addr
  timestampSec : UInt32
  timestampUsec : UInt32

/-- `bmp_event_t`, likewise. A `size_t` is at most 64 bits wide. -/
structure BmpEvent where
  type : BmpEventType
  peer : BmpPeerHeader
  payloadLen : UInt64
  payloadTruncated : Bool

/-- `nf_bmp_obs_t`. The fields `peer_addr` and `peer_is_ipv6`, which are written and never read, are
left out. -/
structure NfBmpObs where
  routerId : CStr
  event : CStr
  tsMs : UInt64
  peerAs : UInt32
  peerBgpId : UInt32
  hasPeer : Bool
  payloadLen : UInt64
  payloadTruncated : Bool
  peerAddrStr : CStr

/-- `format_peer_addr`, in a buffer of 48 bytes. -/
def formatPeerAddr (ph : BmpPeerHeader) : CStr :=
  if ph.isIpv6 then ipv6Hex ph.peerAddress
  else copyStr 48 (List.intercalate [46] (((List.finRange 16).drop 12).map fun i ↦
    decimal (ph.peerAddress i).toNat))

/-- The name of an event, and whether it belongs to a peer. -/
def bmpEventName : BmpEventType → Option (CStr × Bool)
  | .initiation => some (ascii "initiation", false)
  | .termination => some (ascii "termination", false)
  | .peerUp => some (ascii "peer_up", true)
  | .peerDown => some (ascii "peer_down", true)
  | .routeMonitoring => some (ascii "route", true)
  | .statistics => some (ascii "stats", true)
  | .queueOverflow => some (ascii "queue_overflow", false)
  | .error => some (ascii "error", false)
  | .other => none

/-- `nf_obs_from_bmp` -/
def nfObsFromBmp (ev : BmpEvent) (routerId : Option CStr) : Option NfBmpObs :=
  (bmpEventName ev.type).map fun (name, hasPeer) ↦
    { routerId := obsRouterId routerId
      event := name
      hasPeer := hasPeer
      peerAs := if hasPeer then ev.peer.peerAs else 0
      peerBgpId := if hasPeer then ev.peer.peerBgpId else 0
      tsMs := if hasPeer then
          ev.peer.timestampSec.toUInt64 * 1000 + ev.peer.timestampUsec.toUInt64 / 1000
        else 0
      peerAddrStr := if hasPeer then formatPeerAddr ev.peer else []
      payloadLen := ev.payloadLen
      payloadTruncated := ev.payloadTruncated }

/-- The members of the line, in the order they are printed. -/
def bmpObsMembers (obs : NfBmpObs) : List (String × CStr) :=
  [("type", quoted (ascii "bmp")),
   ("router", quoted obs.routerId),
   ("event", quoted obs.event)] ++
  (if obs.hasPeer then
    [("ts", decimal obs.tsMs.toNat),
     ("peer_as", decimal obs.peerAs.toNat),
     ("peer_bgp_id", quoted (inetNtop4 obs.peerBgpId)),
     ("peer_addr", quoted obs.peerAddrStr)]
  else []) ++
  ("payload_len", decimal obs.payloadLen.toNat) ::
    if obs.payloadTruncated then [("payload_truncated", ascii "true")] else []

/-- `nf_bmp_obs_format`: what does not fit the buffer is cut off, without a word. -/
def nfBmpObsFormat (obs : NfBmpObs) (buflen : ℕ) : Option CStr :=
  if buflen < 32 then none else some (copyStr buflen (object (bmpObsMembers obs)))

/-! ## Collecting -/

section Collect

variable (routerId : Option CStr)

/-- `drain_obs`, with `n` observations written so far: those it adds, and the queue it leaves. -/
def drainObs (maxOut : ℕ) : ℕ → List BmpEvent → List NfBmpObs × List BmpEvent
  | _, [] => ([], [])
  | n, ev :: queue =>
    if maxOut ≤ n then ([], ev :: queue)
    else
      match nfObsFromBmp ev routerId with
      | some obs =>
        let (out, rest) := drainObs maxOut (n + 1) queue
        (obs :: out, rest)
      | none => drainObs maxOut n queue

/-- What the two functions below have in common: the observations, unless there is no room for any,
and the queue. `fed` is what the library appends, also when it does not accept the bytes. -/
def bmpCollect (queue fed : List BmpEvent) (maxOut : ℕ) : Option (List NfBmpObs) × List BmpEvent :=
  if maxOut = 0 then (none, queue)
  else
    let (out, rest) := drainObs routerId maxOut 0 (queue ++ fed)
    (some out, rest)

/-- `nf_bmp_collect`; `fed` are the events of `bmp_feed_message`. -/
def nfBmpCollect (queue fed : List BmpEvent) (maxOut : ℕ) :
    Option (List NfBmpObs) × List BmpEvent :=
  bmpCollect routerId queue fed maxOut

/-- `nf_bmp_collect_stream`; `fed` are the events of `bmp_feed_input`. -/
def nfBmpCollectStream (queue fed : List BmpEvent) (maxOut : ℕ) :
    Option (List NfBmpObs) × List BmpEvent :=
  bmpCollect routerId queue fed maxOut

def bmpObservations (events : List BmpEvent) : List NfBmpObs :=
  events.filterMap (nfObsFromBmp · routerId)

theorem drainObs_eq (maxOut : ℕ) (queue : List BmpEvent) {n room : ℕ} (h : n + room = maxOut) :
    (drainObs routerId maxOut n queue).1 = (bmpObservations routerId queue).take room ∧
      bmpObservations routerId (drainObs routerId maxOut n queue).2
        = (bmpObservations routerId queue).drop room := by
  induction queue generalizing n room with
  | nil =>
    rw [drainObs, bmpObservations, List.filterMap_nil, List.take_nil, List.drop_nil]
    exact ⟨rfl, rfl⟩
  | cons ev queue ih =>
    rw [drainObs]
    cases room with
    | zero =>
      rw [if_pos (by omega)]
      exact ⟨rfl, rfl⟩
    | succ room =>
      rw [if_neg (by omega), bmpObservations, List.filterMap_cons]
      cases nfObsFromBmp ev routerId with
      | none => exact ih h
      | some obs =>
        obtain ⟨hout, hrest⟩ := ih (by omega : n + 1 + room = maxOut)
        exact ⟨congrArg (obs :: ·) hout, hrest⟩

/-- A call of one of the two functions, with what the library appends to the queue and the room in
the array. -/
structure BmpCall where
  stream : Bool
  fed : List BmpEvent
  maxOut : ℕ

def BmpCall.collect (call : BmpCall) (queue : List BmpEvent) :
    Option (List NfBmpObs) × List BmpEvent :=
  if call.stream then nfBmpCollectStream routerId queue call.fed call.maxOut
  else nfBmpCollect routerId queue call.fed call.maxOut

theorem BmpCall.collect_eq (call : BmpCall) (queue : List BmpEvent) :
    call.collect routerId queue = bmpCollect routerId queue call.fed call.maxOut := by
  rw [collect]
  split <;> rfl

/-- A BMP context with everything that has gone in and come out of it. -/
structure BmpCollector where
  queue : List BmpEvent
  accepted : List BmpEvent
  returned : List NfBmpObs

namespace BmpCollector

def init : BmpCollector := ⟨[], [], []⟩

def waiting (c : BmpCollector) (fed : List BmpEvent) : List NfBmpObs :=
  bmpObservations routerId (c.queue ++ fed)

/-- A call. One without room does not look at the bytes. -/
def step (c : BmpCollector) (call : BmpCall) : BmpCollector :=
  let (out, queue) := call.collect routerId c.queue
  { queue := queue
    accepted := c.accepted ++ (if call.maxOut = 0 then [] else call.fed)
    returned := c.returned ++ out.getD [] }

/-- Nothing is lost. -/
def Complete (c : BmpCollector) : Prop :=
  c.returned ++ bmpObservations routerId c.queue = bmpObservations routerId c.accepted

/-- A call returns what has waited longest, as much as there is room for. -/
def Serves (c : BmpCollector) (call : BmpCall) : Prop :=
  (c.step routerId call).returned
    = c.returned ++ (c.waiting routerId call.fed).take call.maxOut

theorem serves_step (c : BmpCollector) (call : BmpCall) : c.Serves routerId call := by
  rw [Serves, step, BmpCall.collect_eq, bmpCollect]
  by_cases hroom : call.maxOut = 0
  · rw [if_pos hroom, hroom]
    rfl
  · rw [if_neg hroom]
    exact congrArg (c.returned ++ ·)
      (drainObs_eq routerId call.maxOut _ (Nat.zero_add call.maxOut)).1

theorem complete_step (c : BmpCollector) (call : BmpCall) (h : c.Complete routerId) :
    (c.step routerId call).Complete routerId := by
  have hserves := c.serves_step routerId call
  rw [Serves] at hserves
  rw [Complete, hserves, step, BmpCall.collect_eq, bmpCollect]
  by_cases hroom : call.maxOut = 0
  · rw [if_pos hroom, if_pos hroom, hroom, List.take_zero, List.append_nil, List.append_nil]
    exact h
  · obtain ⟨-, hrest⟩ :=
      drainObs_eq routerId call.maxOut (c.queue ++ call.fed) (Nat.zero_add call.maxOut)
    rw [if_neg hroom, if_neg hroom]
    dsimp only
    rw [hrest, waiting, List.append_assoc, List.take_append_drop, bmpObservations,
      List.filterMap_append, ← bmpObservations, ← List.append_assoc, h, bmpObservations,
      ← List.filterMap_append, ← bmpObservations]

/-- Over every sequence of messages, pieces of a stream and array sizes, nothing is lost, and each
call returns what has waited longest. -/
theorem collects_all (calls : List BmpCall) :
    AllStates (step routerId) (Complete routerId) init calls ∧
      AllSteps (step routerId) (Serves routerId) init calls := by
  have hinit : init.Complete routerId := rfl
  have hserves : ∀ c : BmpCollector, c.Complete routerId → ∀ call ∈ calls,
      c.Serves routerId call ∧ (c.step routerId call).Complete routerId :=
    fun c hc call _ ↦ ⟨c.serves_step routerId call, c.complete_step routerId call hc⟩
  refine ⟨allStates_of_invariant ?_ hinit calls, allSteps_of_invariant hserves hinit⟩
  exact fun c call hc ↦ c.complete_step routerId call hc

end BmpCollector

end Collect

end NetForensics
