import Mathlib.Tactic

/-!
# Runs of a deterministic machine

A machine is a step function, a run is the list of its inputs, and the state it ends in is the fold.
`AllStates` says that a property holds in every state of the run; `AllSteps` that a condition holds
of every input in the state that meets it. Where the condition says exactly when one step keeps the
property, the two agree: `allStates_iff_allSteps`.
-/

namespace NetForensics

variable {σ ι : Type*}

/-- The property holds in every state of the run, the first and the last included. -/
def AllStates (step : σ → ι → σ) (P : σ → Prop) : σ → List ι → Prop
  | s, [] => P s
  | s, i :: is => P s ∧ AllStates step P (step s i) is

def AllSteps (step : σ → ι → σ) (C : σ → ι → Prop) : σ → List ι → Prop
  | _, [] => True
  | s, i :: is => C s i ∧ AllSteps step C (step s i) is

instance decidableAllSteps (step : σ → ι → σ) (C : σ → ι → Prop) [∀ s i, Decidable (C s i)] :
    (s : σ) → (is : List ι) → Decidable (AllSteps step C s is)
  | _, [] => inferInstanceAs (Decidable True)
  | s, i :: is =>
    have := decidableAllSteps step C (step s i) is
    inferInstanceAs (Decidable (C s i ∧ AllSteps step C (step s i) is))

variable {step : σ → ι → σ} {P : σ → Prop} {C : σ → ι → Prop} {s : σ} {is : List ι}

theorem AllStates.head (h : AllStates step P s is) : P s := by
  cases is with
  | nil => exact h
  | cons i is => exact h.1

theorem AllStates.imp {Q : σ → Prop} (hPQ : ∀ s, P s → Q s) (h : AllStates step P s is) :
    AllStates step Q s is := by
  induction is generalizing s with
  | nil => exact hPQ s h
  | cons i is ih => exact ⟨hPQ s h.1, ih h.2⟩

theorem foldl_invariant (hstep : ∀ s i, P s → P (step s i)) (h : P s) (is : List ι) :
    P (is.foldl step s) := by
  induction is generalizing s with
  | nil => exact h
  | cons i is ih => exact ih (hstep s i h)

theorem allStates_of_invariant (hstep : ∀ s i, P s → P (step s i)) (h : P s) (is : List ι) :
    AllStates step P s is := by
  induction is generalizing s with
  | nil => exact h
  | cons i is ih => exact ⟨h, ih (hstep s i h)⟩

/-- An invariant that implies the condition at every step, for the inputs of the run. -/
theorem allSteps_of_invariant (hstep : ∀ s, P s → ∀ i ∈ is, C s i ∧ P (step s i)) (h : P s) :
    AllSteps step C s is := by
  induction is generalizing s with
  | nil => trivial
  | cons i is ih =>
    obtain ⟨hc, hp⟩ := hstep s h i List.mem_cons_self
    exact ⟨hc, ih (fun t ht j hj ↦ hstep t ht j (List.mem_cons_of_mem i hj)) hp⟩

theorem AllSteps.and {D : σ → ι → Prop} (h : AllSteps step C s is) (h' : AllSteps step D s is) :
    AllSteps step (fun s i ↦ C s i ∧ D s i) s is := by
  induction is generalizing s with
  | nil => trivial
  | cons i is ih => exact ⟨⟨h.1, h'.1⟩, ih h.2 h'.2⟩

/-- What every step that meets the condition keeps, and whatever follows from it, holds in every
state of a run whose steps all meet the condition. -/
theorem allStates_of_allSteps {Q : σ → Prop} (hQ : ∀ s, Q s → P s)
    (hstep : ∀ s i, Q s → C s i → Q (step s i)) (h : Q s) (hsteps : AllSteps step C s is) :
    AllStates step P s is := by
  induction is generalizing s with
  | nil => exact hQ s h
  | cons i is ih => exact ⟨hQ s h, ih (hstep s i h hsteps.1) hsteps.2⟩

/-- If a step keeps the property exactly under the condition, then every state of a run has the
property exactly when every step meets the condition. -/
theorem allStates_iff_allSteps (hstep : ∀ s, P s → ∀ i, P (step s i) ↔ C s i) (h : P s)
    (is : List ι) : AllStates step P s is ↔ AllSteps step C s is := by
  induction is generalizing s with
  | nil => exact iff_of_true h trivial
  | cons i is ih =>
    rw [AllStates, AllSteps, and_iff_right h, ← hstep s h i]
    constructor
    · exact fun hrest ↦ ⟨hrest.head, (ih hrest.head).mp hrest⟩
    · exact fun ⟨hnext, hrest⟩ ↦ (ih hnext).mpr hrest

end NetForensics
