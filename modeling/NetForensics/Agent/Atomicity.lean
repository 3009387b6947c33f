import NetForensics.Agent.Apply

/-!
# Rejected configurations

`cpe_agent_apply_config` reports failure at two points. When validation refuses the candidate,
nothing has happened yet. When the new ring cannot be allocated, the old one has already been
released: the agent keeps its configuration but has lost its ring, the lines in it, and the ability
to take any more.
-/

namespace NetForensics

namespace CpeAgent

/-- The agent is as it was, up to events appended to the queue for the host. -/
structure Unchanged (a a' : CpeAgent) : Prop where
  cfg_eq : a'.cfg = a.cfg
  slots_eq : a'.slots = a.slots
  tcp_eq : a'.tcp = a.tcp
  flow_eq : a'.flow = a.flow
  mem_eq : a'.spool.mem = a.spool.mem
  cap_eq : a'.spool.ring.cap = a.spool.ring.cap
  head_eq : a'.spool.ring.head = a.spool.ring.head
  tail_eq : a'.spool.ring.tail = a.spool.ring.tail
  cnt_eq : a'.spool.ring.cnt = a.spool.ring.cnt
  lines_eq : a'.spool.ring.contents = a.spool.ring.contents
  drops_eq : a'.spool.drops = a.spool.drops
  events : ∃ evs : List CpeAgentEvent, a'.eq = evs.foldl Ring.put a.eq

/-- There is no ring: no memory, and all indices at zero. -/
def NoSpool (a : CpeAgent) : Prop :=
  a.spool.mem = false ∧ a.spool.ring.cap = 0 ∧ a.spool.ring.head = 0 ∧ a.spool.ring.tail = 0 ∧
    a.spool.ring.cnt = 0

variable {a : CpeAgent}

theorem Unchanged.refl (a : CpeAgent) : a.Unchanged a where
  cfg_eq := rfl
  slots_eq := rfl
  tcp_eq := rfl
  flow_eq := rfl
  mem_eq := rfl
  cap_eq := rfl
  head_eq := rfl
  tail_eq := rfl
  cnt_eq := rfl
  lines_eq := rfl
  drops_eq := rfl
  events := ⟨[], rfl⟩

theorem Unchanged.eqPush {a' : CpeAgent} (h : a.Unchanged a') (t : CpeAgentEventType) (r : CStr)
    (n s : ℕ) : a.Unchanged (a'.eqPush t r n s) := by
  rw [CpeAgent.eqPush]
  split
  · exact h
  · obtain ⟨evs, hevs⟩ := h.events
    exact { h with events := ⟨evs ++ [⟨t, copyStr 128 r, n, s⟩], by
      rw [List.foldl_append, ← hevs]
      rfl⟩ }

theorem NoSpool.unchanged_freeSpool (h : a.NoSpool) : a.Unchanged a.freeSpool := by
  obtain ⟨hmem, hcap, hhead, htail, hcnt⟩ := h
  exact { Unchanged.refl a with
    mem_eq := hmem.symm
    cap_eq := hcap.symm
    head_eq := hhead.symm
    tail_eq := htail.symm
    cnt_eq := hcnt.symm
    lines_eq := (List.length_eq_zero_iff.mp (by rw [Ring.length_contents, hcnt])).symm }

/-- Whether a push succeeds is a matter of the ring being there. -/
theorem spoolPushLine_ret (a : CpeAgent) (line : CStr) :
    (a.spoolPushLine line).2 = 0 ↔ a.spool.mem = true ∧ a.spool.ring.cap ≠ 0 := by
  rw [spoolPushLine]
  split
  · rename_i h
    have hret : (-1 : ℤ) ≠ 0 := by decide
    refine iff_of_false hret ?_
    rintro ⟨hmem, hcap⟩
    rw [hmem, beq_eq_false_iff_ne.mpr hcap] at h
    exact absurd h (by decide)
  · rename_i h
    rw [Bool.or_eq_true, not_or, Bool.not_eq_true', Bool.not_eq_false, beq_iff_eq] at h
    exact iff_of_true rfl h

theorem Unchanged.push_succeeds {a' : CpeAgent} (h : a.Unchanged a') (line : CStr)
    (hpush : (a.spoolPushLine line).2 = 0) : (a'.spoolPushLine line).2 = 0 := by
  rw [spoolPushLine_ret] at hpush ⊢
  rw [h.mem_eq, h.cap_eq]
  exact hpush

/-! ## The failure exits -/

/-- A failed call leaves everything but the event queue as it was, and pushes keep working, if and
only if it is not the allocation of another ring that failed, or there was no ring to begin with. -/
theorem applyConfig_rejected_iff (a : CpeAgent) (cfg : CpeAgentConfig) (env : ApplyEnv) :
    ((a.applyConfig cfg env).2 = -1 → a.Unchanged (a.applyConfig cfg env).1 ∧
      ∀ line, (a.spoolPushLine line).2 = 0 →
        ((a.applyConfig cfg env).1.spoolPushLine line).2 = 0) ↔
    cpeAgentConfigValidate (normalizeConfig cfg) ≠ none ∨
      (normalizeConfig cfg).spoolMaxLines = a.spool.ring.cap ∨ env.alloc = true ∨ a.NoSpool := by
  have hinstalled : ∀ b : CpeAgent, a.applyConfig cfg env = (b, 0) →
      ((a.applyConfig cfg env).2 = -1 → a.Unchanged (a.applyConfig cfg env).1 ∧
        ∀ line, (a.spoolPushLine line).2 = 0 →
          ((a.applyConfig cfg env).1.spoolPushLine line).2 = 0) := by
    intro b hres h
    rw [hres] at h
    have hret : (0 : ℤ) ≠ -1 := by decide
    exact absurd h hret
  rcases a.applyConfig_cases cfg env with ⟨err, hv, hres⟩ | ⟨hv, hne, halloc, bytes, hres⟩ |
    ⟨-, hcap, hres⟩ | ⟨-, -, halloc, cap, slots, hres⟩
  · have hsame : a.Unchanged (a.eqPush .configRejected (copyStr 128 err) 0 0) :=
      (Unchanged.refl a).eqPush _ _ _ _
    rw [hres, hv]
    exact iff_of_true (fun _ ↦ ⟨hsame, hsame.push_succeeds⟩) (Or.inl (by simp))
  · rw [hres]
    constructor
    · -- the old ring is gone, so nothing changed only if there was none
      intro h
      have hsame := (h rfl).1
      refine Or.inr (Or.inr (Or.inr ⟨?_, ?_, ?_, ?_, ?_⟩))
      · rw [← hsame.mem_eq, eqPush_spool, eqPush_spool]
        rfl
      · rw [← hsame.cap_eq, eqPush_spool, eqPush_spool]
        rfl
      · rw [← hsame.head_eq, eqPush_spool, eqPush_spool]
        rfl
      · rw [← hsame.tail_eq, eqPush_spool, eqPush_spool]
        rfl
      · rw [← hsame.cnt_eq, eqPush_spool, eqPush_spool]
        rfl
    · rintro (h | h | h | h) -
      · exact absurd hv h
      · exact absurd h hne
      · rw [halloc] at h
        exact absurd h Bool.false_ne_true
      · have hsame := (h.unchanged_freeSpool.eqPush .needAlloc (ascii "spool") bytes 0).eqPush
          .configRejected (ascii "spool alloc") 0 0
        exact ⟨hsame, hsame.push_succeeds⟩
  · exact iff_of_true (hinstalled _ hres) (Or.inr (Or.inl hcap))
  · exact iff_of_true (hinstalled _ hres) (Or.inr (Or.inr (Or.inl halloc)))

/-- A new agent asked for a smaller ring that cannot be allocated: the call fails, and the ring it
had is gone. -/
theorem applyConfig_rejected_changes :
    ¬ ((create.applyConfig { cpeAgentConfigDefaults with spoolMaxLines := 8 }
          ⟨false, .ok 3, .ok 4, .ok 5⟩).2 = -1 →
        create.Unchanged (create.applyConfig { cpeAgentConfigDefaults with spoolMaxLines := 8 }
          ⟨false, .ok 3, .ok 4, .ok 5⟩).1 ∧
        ∀ line, (create.spoolPushLine line).2 = 0 →
          ((create.applyConfig { cpeAgentConfigDefaults with spoolMaxLines := 8 }
            ⟨false, .ok 3, .ok 4, .ok 5⟩).1.spoolPushLine line).2 = 0) := by
  intro h
  have hpush := (h (by decide)).2 (ascii "up") (by decide)
  exact absurd hpush (by decide)

end CpeAgent

end NetForensics
