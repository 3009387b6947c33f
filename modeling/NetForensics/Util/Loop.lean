import Mathlib.Tactic

/-!
# Loops that may fault or run on

A loop is its body: a turn either leaves the loop or goes on with another state, or it faults. What
can be said of a loop that is not known to end is said of the states it comes by (`Reaches`); that
it ends, with a variant (`exists_ends`). The executable `loop` runs a number of turns, and
agrees with both.
-/

namespace NetForensics

/-- What a turn of a loop does, if it does not fault. -/
inductive Turn (σ : Type*) where
  | stop (s : σ)
  | go (s : σ)

variable {σ : Type*}

/-- The loop for at most `n` turns. `none` is a fault, and `go` says that it still runs. -/
def loop (step : σ → Option (Turn σ)) : ℕ → σ → Option (Turn σ)
  | 0, s => some (.go s)
  | n + 1, s =>
    match step s with
    | none => none
    | some (.stop t) => some (.stop t)
    | some (.go t) => loop step n t

/-- The loop started in `s` comes by `t`. -/
inductive Reaches (step : σ → Option (Turn σ)) (s : σ) : σ → Prop
  | refl : Reaches step s s
  | tail {t u : σ} (ht : Reaches step s t) (hu : step t = some (.go u)) : Reaches step s u

/-- The loop ends, in `t`. -/
def Ends (step : σ → Option (Turn σ)) (s t : σ) : Prop := ∃ n, loop step n s = some (.stop t)

variable {step : σ → Option (Turn σ)} {s t u : σ}

theorem loop_of_go (h : step s = some (.go t)) (n : ℕ) : loop step (n + 1) s = loop step n t := by
  rw [loop, h]

theorem loop_of_stop (h : step s = some (.stop t)) (n : ℕ) :
    loop step (n + 1) s = some (.stop t) := by
  rw [loop, h]

theorem Reaches.head (h : step s = some (.go t)) (htu : Reaches step t u) : Reaches step s u := by
  induction htu with
  | refl => exact .tail .refl h
  | tail _ hu ih => exact .tail ih hu

/-- What a turn keeps holds of every state the loop comes by. -/
theorem Reaches.invariant {P : σ → Prop} (hstep : ∀ t u, P t → step t = some (.go u) → P u)
    (hs : P s) (h : Reaches step s t) : P t := by
  induction h with
  | refl => exact hs
  | tail _ hu ih => exact hstep _ _ ih hu

/-- The executable loop faults only where a state it comes by does. -/
theorem loop_ne_none (hsafe : ∀ t, Reaches step s t → step t ≠ none) (n : ℕ) :
    loop step n s ≠ none := by
  induction n generalizing s with
  | zero => exact Option.some_ne_none _
  | succ n ih =>
    cases hs : step s with
    | none => exact absurd hs (hsafe s .refl)
    | some turn =>
      cases turn with
      | stop u =>
        rw [loop_of_stop hs]
        exact Option.some_ne_none _
      | go u =>
        rw [loop_of_go hs]
        exact ih fun t ht ↦ hsafe t (.head hs ht)

/-- An invariant that excludes faults, and a variant: the loop ends. -/
theorem exists_ends {P : σ → Prop} (μ : σ → ℕ) (hsafe : ∀ t, P t → step t ≠ none)
    (hstep : ∀ t u, P t → step t = some (.go u) → P u ∧ μ u < μ t) (hs : P s) :
    ∃ t, Ends step s t := by
  induction hμ : μ s using Nat.strong_induction_on generalizing s with
  | _ m ih =>
    cases hturn : step s with
    | none => exact absurd hturn (hsafe s hs)
    | some turn =>
      cases turn with
      | stop u => exact ⟨u, 1, loop_of_stop hturn 0⟩
      | go u =>
        obtain ⟨hu, hlt⟩ := hstep s u hs hturn
        obtain ⟨t, n, hn⟩ := ih (μ u) (hμ ▸ hlt) hu rfl
        exact ⟨t, n + 1, (loop_of_go hturn n).trans hn⟩

/-- A loop that comes by a state ends as it would from there. -/
theorem Ends.of_reaches (hst : Reaches step s t) (h : Ends step s u) : Ends step t u := by
  induction hst with
  | refl => exact h
  | tail _ hgo ih =>
    obtain ⟨n, hn⟩ := ih
    cases n with
    | zero => exact nomatch hn
    | succ n =>
      rw [loop_of_go hgo] at hn
      exact ⟨n, hn⟩

theorem Reaches.ends (hst : Reaches step s t) (h : Ends step t u) : Ends step s u := by
  induction hst with
  | refl => exact h
  | tail _ hgo ih =>
    obtain ⟨n, hn⟩ := h
    exact ih ⟨n + 1, (loop_of_go hgo n).trans hn⟩

theorem loop_add {n : ℕ} (h : loop step n s = some (.stop t)) (k : ℕ) :
    loop step (n + k) s = some (.stop t) := by
  induction n generalizing s with
  | zero => exact nomatch h
  | succ n ih =>
    rw [Nat.succ_add]
    cases hs : step s with
    | none =>
      rw [loop, hs] at h
      exact nomatch h
    | some turn =>
      cases turn with
      | stop u =>
        rw [loop_of_stop hs] at h ⊢
        exact h
      | go u =>
        rw [loop_of_go hs] at h ⊢
        exact ih h

theorem Ends.unique (h : Ends step s t) {n : ℕ} (hn : loop step n s = some (.stop u)) : u = t := by
  obtain ⟨m, hm⟩ := h
  have hsum := loop_add hn m
  rw [Nat.add_comm, loop_add hm n] at hsum
  exact (Turn.stop.inj (Option.some_inj.mp hsum)).symm

theorem not_ends {P : σ → Prop} (hstep : ∀ t, P t → ∃ u, P u ∧ step t = some (.go u)) (hs : P s) :
    ¬ Ends step s t := by
  rintro ⟨n, hn⟩
  induction n generalizing s with
  | zero => exact nomatch hn
  | succ n ih =>
    obtain ⟨u, hu, hgo⟩ := hstep s hs
    rw [loop_of_go hgo] at hn
    exact ih hu hn

end NetForensics
