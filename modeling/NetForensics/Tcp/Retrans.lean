import NetForensics.Tcp.Stats
import NetForensics.Util.Recent
import NetForensics.Util.Run

/-!
# The window of remembered SYNs

A SYN counts as a retransmission when its four-tuple is in the window. A tuple enters the window
when it is not there, and leaves it when 64 others have entered after it; being seen again does not
keep it there any longer.
-/

namespace NetForensics

/-- The directed four-tuple of a SYN. -/
structure SynTuple where
  sip : UInt32
  dip : UInt32
  sport : UInt16
  dport : UInt16
  deriving DecidableEq

def SynFlow.tuple (f : SynFlow) : SynTuple := ⟨f.sip, f.dip, f.sport, f.dport⟩

def SynFlow.held (f : SynFlow) : Option SynTuple := if f.used then some f.tuple else none

namespace SynWindow

def slot (w : SynWindow) (i : Fin 64) : Option SynTuple := (w.flows i).held

/-- A call of `flow_is_retrans`. -/
def call (w : SynWindow) (c : SynTuple × UInt32) : SynWindow × Bool :=
  flowIsRetrans w c.1.sip c.1.dip c.1.sport c.1.dport c.2

/-- A sequence of calls, with the tuples inserted so far: those of the calls that returned zero. -/
def calls (w : SynWindow) (cs : List (SynTuple × UInt32)) : SynWindow × List SynTuple :=
  cs.foldl (fun (res : SynWindow × List SynTuple) c ↦
    ((res.1.call c).1, if (res.1.call c).2 then res.2 else res.2 ++ [c.1])) (w, [])

/-! ## One call -/

theorem slot_eq_some_iff (w : SynWindow) (i : Fin 64) (t : SynTuple) :
    w.slot i = some t ↔ ((w.flows i).used && (w.flows i).sip == t.sip && (w.flows i).dip == t.dip &&
      (w.flows i).sport == t.sport && (w.flows i).dport == t.dport) = true := by
  obtain ⟨sip, dip, sport, dport⟩ := t
  rw [slot, SynFlow.held, SynFlow.tuple]
  simp only [Option.ite_none_right_eq_some, Option.some.injEq, SynTuple.mk.injEq, Bool.and_eq_true,
    beq_iff_eq, and_assoc]

theorem slot_update (w : SynWindow) (i next : Fin 64) (f : SynFlow) :
    slot ⟨Function.update w.flows i f, next⟩ = Function.update w.slot i f.held :=
  Function.comp_update SynFlow.held w.flows i f

/-- A call either finds the tuple, and the slots stay, or writes it to the slot that is due. -/
theorem call_cases (w : SynWindow) (c : SynTuple × UInt32) :
    ((∃ i, w.slot i = some c.1) ∧ (w.call c).2 = true ∧ (w.call c).1.slot = w.slot ∧
        (w.call c).1.flowI = w.flowI) ∨
      ((¬ ∃ i, w.slot i = some c.1) ∧ (w.call c).2 = false ∧
        (w.call c).1.slot = Function.update w.slot w.flowI (some c.1) ∧
        (w.call c).1.flowI = w.flowI + 1) := by
  rw [call, flowIsRetrans]
  dsimp only
  generalize hfind : ((List.finRange 64).find? fun i ↦ (w.flows i).used &&
    (w.flows i).sip == c.1.sip && (w.flows i).dip == c.1.dip &&
    (w.flows i).sport == c.1.sport && (w.flows i).dport == c.1.dport) = known
  cases known with
  | some i =>
    have htest := List.find?_some hfind
    have hi : w.slot i = some c.1 := (slot_eq_some_iff w i c.1).mpr htest
    refine Or.inl ⟨⟨i, hi⟩, rfl, ?_, rfl⟩
    -- only the sequence number is written
    dsimp only
    rw [slot_update]
    exact Function.update_eq_self i w.slot
  | none =>
    refine Or.inr ⟨?_, rfl, ?_, rfl⟩
    · rintro ⟨i, hi⟩
      exact List.find?_eq_none.mp hfind i (List.mem_finRange i) ((slot_eq_some_iff w i c.1).mp hi)
    · dsimp only
      rw [slot_update]
      rfl

/-! ## A history of calls -/

/-- The invariant: the slots hold the last 64 insertions, none twice. -/
def Exact (res : SynWindow × List SynTuple) : Prop :=
  HoldsRecent res.1.slot res.1.flowI.val res.2 ∧ (recent 64 res.2).Nodup

theorem Exact.call {w : SynWindow} {ins : List SynTuple} (h : Exact (w, ins))
    (c : SynTuple × UInt32) :
    Exact ((w.call c).1, if (w.call c).2 then ins else ins ++ [c.1]) := by
  obtain ⟨hslots, hnodup⟩ := h
  rcases w.call_cases c with ⟨-, hret, hslot, hnext⟩ | ⟨hnew, hret, hslot, hnext⟩
  · rw [hret, if_pos rfl, Exact, hslot, hnext]
    exact ⟨hslots, hnodup⟩
  · rw [hret, if_neg Bool.false_ne_true, Exact, hslot, hnext]
    have hval : (w.flowI + 1).val = (w.flowI.val + 1) % 64 := Fin.val_add w.flowI 1
    rw [hval]
    refine ⟨hslots.insert rfl c.1, nodup_recent_append hnodup ?_⟩
    rwa [← hslots.exists_slot_iff (by decide)]

theorem exact_calls {w : SynWindow} (h : Exact (w, [])) (cs : List (SynTuple × UInt32)) :
    Exact (w.calls cs) :=
  foldl_invariant (P := Exact) (fun _ c h ↦ h.call c) h cs

theorem exact_reset (st : CpeTcpState) (clock : Option WallClock) :
    Exact ((cpeAgentTcpReset st clock).syns, []) :=
  ⟨holdsRecent_nil, List.nodup_nil⟩

/-- After a reset and any calls, a call finds its tuple if and only if it is one of the last 64
inserted; the slots in use hold different tuples; there are as many of them as insertions, up to 64;
and the position is the number of insertions modulo 64. -/
theorem calls_exact_window (st : CpeTcpState) (clock : Option WallClock)
    (cs : List (SynTuple × UInt32)) :
    let w := ((cpeAgentTcpReset st clock).syns.calls cs).1
    let ins := ((cpeAgentTcpReset st clock).syns.calls cs).2
    (∀ c, (w.call c).2 = true ↔ c.1 ∈ ins.drop (ins.length - 64)) ∧
      (∀ i k, (w.flows i).used = true → (w.flows k).used = true →
        (w.flows i).tuple = (w.flows k).tuple → i = k) ∧
      (Finset.univ.filter fun i ↦ (w.flows i).used = true).card = min 64 ins.length ∧
      w.flowI.val = ins.length % 64 := by
  intro w ins
  obtain ⟨hslots, hnodup⟩ := exact_calls (exact_reset st clock) cs
  have hused : ∀ i, (w.flows i).used = true → w.slot i = some (w.flows i).tuple :=
    fun i hi ↦ if_pos hi
  refine ⟨?_, ?_, ?_, hslots.next_eq⟩
  · intro c
    have hmem := hslots.exists_slot_iff (by decide) c.1
    rw [recent] at hmem
    rw [← hmem]
    rcases w.call_cases c with ⟨hold, hret, -⟩ | ⟨hnew, hret, -⟩
    · rw [hret]
      exact iff_of_true rfl hold
    · rw [hret]
      exact iff_of_false Bool.false_ne_true hnew
  · intro i k hi hk heq
    exact hslots.slot_inj hnodup (hused i hi) (heq ▸ hused k hk)
  · rw [← hslots.card_used]
    congr 1
    refine Finset.filter_congr fun i _ ↦ ?_
    change _ ↔ (w.flows i).held.isSome = true
    rw [SynFlow.held]
    cases (w.flows i).used <;> simp

end SynWindow

end NetForensics
