/-!
# Clocked circuits

A synchronous block is a step function from the register state and one clock's
inputs to the next register state. An invariant is a property of the state
alone, or of the state together with the inputs seen since reset.
-/

namespace SecureBoot.Clocked

variable {σ ι : Type}

/-- The registers after a sequence of clock edges. -/
def run (step : σ → ι → σ) (s : σ) (inputs : List ι) : σ := inputs.foldl step s

@[simp] theorem run_nil (step : σ → ι → σ) (s : σ) : run step s [] = s := rfl

@[simp] theorem run_cons (step : σ → ι → σ) (s : σ) (i : ι) (inputs : List ι) :
    run step s (i :: inputs) = run step (step s i) inputs := rfl

/-- What one clock edge preserves, every run preserves. -/
theorem run_invariant {step : σ → ι → σ} {I : σ → Prop}
    (hstep : ∀ s i, I s → I (step s i)) (s : σ) (hs : I s) (inputs : List ι) :
    I (run step s inputs) := by
  induction inputs generalizing s with
  | nil => exact hs
  | cons i inputs ih => exact ih (step s i) (hstep s i hs)

/-- A relation between the inputs so far and the registers, extended edge by edge. -/
theorem run_history {step : σ → ι → σ} {R : List ι → σ → Prop} (s : σ) (h₀ : R [] s)
    (hstep : ∀ past s i, R past s → R (past ++ [i]) (step s i)) (inputs : List ι) :
    R inputs (run step s inputs) := by
  have h : ∀ (past : List ι) (s : σ), R past s → R (past ++ inputs) (run step s inputs) := by
    intro past s hs
    induction inputs generalizing past s with
    | nil => simpa using hs
    | cons i inputs ih =>
        have hnext := ih (past ++ [i]) (step s i) (hstep past s i hs)
        simpa using hnext
  exact h [] s h₀

/-- The same for one input that is kept up. -/
theorem run_replicate_invariant {step : σ → ι → σ} {I : σ → Prop} {i : ι}
    (hstep : ∀ s, I s → I (step s i)) (k : Nat) (s : σ) (hs : I s) :
    I (run step s (List.replicate k i)) := by
  induction k generalizing s with
  | zero => exact hs
  | succ k ih => exact ih (step s i) (hstep s hs)

/-- A rank that falls at every edge until `Q` holds: with input `i` kept up, `Q` is reached. -/
theorem run_reaches {step : σ → ι → σ} {R : Nat → σ → Prop} {Q : σ → Prop} {i : ι}
    (hstep : ∀ r s, R r s → Q s ∨ ∃ r', r' < r ∧ R r' (step s i)) (r : Nat) (s : σ) (hs : R r s) :
    ∃ k, Q (run step s (List.replicate k i)) := by
  induction r using Nat.strongRecOn generalizing s with
  | ind r ih =>
      rcases hstep r s hs with hdone | ⟨r', hlt, hnext⟩
      · exact ⟨0, hdone⟩
      · rcases ih r' hlt (step s i) hnext with ⟨k, hk⟩
        exact ⟨k + 1, hk⟩

end SecureBoot.Clocked
