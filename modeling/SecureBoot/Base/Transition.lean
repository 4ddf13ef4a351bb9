import Mathlib.Data.List.Forall2

/-!
# Labelled transitions

A system that takes one labelled step at a time, with the choice of the step left open: which
party moves, and what its environment does. A run is a list of labels. Safety comes from what
one step preserves, progress on a fair schedule from a rank, and refinement from a relation with
the states of a more abstract system.
-/

namespace SecureBoot.Transition

variable {σ ι τ κ : Type} {step : σ → ι → σ → Prop}

/-- From the first state to the last along these labels. -/
inductive Run (step : σ → ι → σ → Prop) : σ → List ι → σ → Prop
  | nil (s : σ) : Run step s [] s
  | cons (s t u : σ) (i : ι) (labels : List ι) (hstep : step s i t) (hrest : Run step t labels u) :
      Run step s (i :: labels) u

theorem Run.append {s t u : σ} {first second : List ι} (h : Run step s first t)
    (h' : Run step t second u) : Run step s (first ++ second) u := by
  induction h with
  | nil s => exact h'
  | cons s t₁ t i labels hstep _ ih => exact .cons s t₁ u i _ hstep (ih h')

theorem Run.one {s t : σ} {i : ι} (h : step s i t) : Run step s [i] t :=
  .cons s t t i [] h (.nil t)

/-- A run along a concatenation passes through a state between its parts. -/
theorem Run.split {s u : σ} {first second : List ι} (h : Run step s (first ++ second) u) :
    ∃ t, Run step s first t ∧ Run step t second u := by
  induction first generalizing s with
  | nil => exact ⟨s, .nil s, h⟩
  | cons i first ih =>
      cases h with
      | cons _ t₁ _ _ _ hstep hrest =>
          rcases ih hrest with ⟨t, hfirst, hsecond⟩
          exact ⟨t, .cons s t₁ t i first hstep hfirst, hsecond⟩

/-- Labels that can be taken one after the other. -/
theorem run_of_foldlM {next : σ → ι → Option σ} {s t : σ} {labels : List ι}
    (h : labels.foldlM next s = some t) : Run (fun s i t => next s i = some t) s labels t := by
  induction labels generalizing s with
  | nil =>
      cases h
      exact .nil _
  | cons i labels ih =>
      rw [List.foldlM_cons] at h
      rcases Option.bind_eq_some_iff.mp h with ⟨t₁, hstep, hrest⟩
      exact .cons s t₁ t i labels hstep (ih hrest)

/-! ## Invariants -/

section Invariant

variable {I : σ → Prop} (hstep : ∀ s i t, I s → step s i t → I t)
include hstep

/-- What one step preserves, every run preserves. -/
theorem Run.invariant {s t : σ} {labels : List ι} (h : Run step s labels t) (hs : I s) : I t := by
  induction h with
  | nil s => exact hs
  | cons s t₁ t i labels hfirst _ ih => exact ih (hstep s i t₁ hs hfirst)

/-- A preorder that every step follows relates the ends of every run. -/
theorem Run.monotone {R : σ → σ → Prop} (hrefl : ∀ s, R s s)
    (htrans : ∀ s t u, R s t → R t u → R s u) (hmono : ∀ s i t, I s → step s i t → R s t)
    {s t : σ} {labels : List ι} (h : Run step s labels t) (hs : I s) : R s t := by
  induction h with
  | nil s => exact hrefl s
  | cons s t₁ t i labels hfirst _ ih =>
      exact htrans s t₁ t (hmono s i t₁ hs hfirst) (ih (hstep s i t₁ hs hfirst))

end Invariant

/-! ## Progress -/

section Progress

/-- The states along a schedule. What cannot be done when its turn comes is passed over. -/
def follow (next : σ → ι → Option σ) (s : σ) (schedule : Nat → ι) : Nat → σ
  | 0 => s
  | m + 1 =>
      (next (follow next s schedule m) (schedule m)).getD (follow next s schedule m)

/-- None of these labels is put off forever. -/
def Fair (L : ι → Prop) (schedule : Nat → ι) : Prop :=
  ∀ i, L i → ∀ m, ∃ d, schedule (m + d) = i

variable {next : σ → ι → Option σ} {I Q : σ → Prop} {L : ι → Prop} {help : σ → ι → Prop}
  {rank : σ → Nat}

variable (next) in
theorem follow_succ (s : σ) (schedule : Nat → ι) (m : Nat) :
    follow next s schedule (m + 1) = follow next s schedule m ∨
      next (follow next s schedule m) (schedule m) = some (follow next s schedule (m + 1)) := by
  rw [follow]
  cases hnext : next (follow next s schedule m) (schedule m) with
  | none => exact .inl rfl
  | some t => exact .inr rfl

theorem follow_invariant (hI : ∀ s i t, I s → next s i = some t → I t) {s : σ} (hs : I s)
    (schedule : Nat → ι) (m : Nat) : I (follow next s schedule m) := by
  induction m with
  | zero => exact hs
  | succ m ih =>
      rcases follow_succ next s schedule m with h | h
      · rwa [h]
      · exact hI _ _ _ ih h

/-- Short of the goal some label can be taken and lowers the rank; a step that does not lower it
leaves that label as it is. A schedule that puts no such label off reaches the goal. -/
theorem eventually_of_rank (hI : ∀ s i t, I s → next s i = some t → I t)
    (hhelp : ∀ s, I s → ¬ Q s → ∃ i, L i ∧ help s i)
    (hlower : ∀ s i, I s → help s i → ∃ t, next s i = some t ∧ rank t < rank s)
    (hkeep : ∀ s i j t, I s → help s i → next s j = some t →
      rank t < rank s ∨ rank t = rank s ∧ help t i)
    {s : σ} (hs : I s) {schedule : Nat → ι} (hfair : Fair L schedule) :
    ∃ m, Q (follow next s schedule m) := by
  have hinv := follow_invariant hI hs schedule
  -- until its turn comes the label stays helpful, unless the rank is lowered before
  have hturn : ∀ d m i, help (follow next s schedule m) i → schedule (m + d) = i →
      ∃ m', rank (follow next s schedule m') < rank (follow next s schedule m) := by
    intro d
    induction d with
    | zero =>
        intro m i hi hm
        rcases hlower _ i (hinv m) hi with ⟨t, hnext, hlt⟩
        refine ⟨m + 1, ?_⟩
        rw [Nat.add_zero] at hm
        rwa [follow, hm, hnext]
    | succ d ih =>
        intro m i hi hm
        have hm' : schedule (m + 1 + d) = i := by
          rw [← hm]
          congr 1
          omega
        rcases follow_succ next s schedule m with h | h
        · rcases ih (m + 1) i (h ▸ hi) hm' with ⟨m', hlt⟩
          exact ⟨m', h ▸ hlt⟩
        · rcases hkeep _ i _ _ (hinv m) hi h with hlt | ⟨heq, hi'⟩
          · exact ⟨m + 1, hlt⟩
          · rcases ih (m + 1) i hi' hm' with ⟨m', hlt⟩
            exact ⟨m', heq ▸ hlt⟩
  have hreach : ∀ r m, rank (follow next s schedule m) = r →
      ∃ m', Q (follow next s schedule m') := by
    intro r
    induction r using Nat.strongRecOn with
    | ind r ih =>
        intro m hr
        by_cases hQ : Q (follow next s schedule m)
        · exact ⟨m, hQ⟩
        · rcases hhelp _ (hinv m) hQ with ⟨i, hL, hi⟩
          rcases hfair i hL m with ⟨d, hd⟩
          rcases hturn d m i hi hd with ⟨m', hlt⟩
          exact ih _ (hr ▸ hlt) m' rfl
  exact hreach _ 0 rfl

end Progress

/-! ## Refinement -/

/-- Every concrete step is, seen through the relation, some abstract steps; `Seen` says what an
observer of both can compare. -/
def Simulates (step : σ → ι → σ → Prop) (abs : τ → κ → τ → Prop) (R : σ → τ → Prop)
    (Seen : ι → List κ → Prop) : Prop :=
  ∀ s i s' t, R s t → step s i s' → ∃ ks t', Seen i ks ∧ Run abs t ks t' ∧ R s' t'

/-- So is every run. -/
theorem Run.refines {abs : τ → κ → τ → Prop} {R : σ → τ → Prop} {Seen : ι → List κ → Prop}
    (hsim : Simulates step abs R Seen) {s s' : σ} {labels : List ι} (h : Run step s labels s')
    {t : τ} (hR : R s t) :
    ∃ kss t', List.Forall₂ Seen labels kss ∧ Run abs t kss.flatten t' ∧ R s' t' := by
  induction h generalizing t with
  | nil s => exact ⟨[], t, .nil, .nil t, hR⟩
  | cons s s₁ s' i labels hstep _ ih =>
      rcases hsim s i s₁ t hR hstep with ⟨ks, t₁, hseen, hfirst, hR₁⟩
      rcases ih hR₁ with ⟨kss, t', hrest, hrun, hR'⟩
      exact ⟨ks :: kss, t', .cons hseen hrest, hfirst.append hrun, hR'⟩

/-- What holds between any two abstract labels holds between the concrete ones they stand for. -/
theorem pairwise_of_seen {Seen : ι → List κ → Prop} {P : ι → ι → Prop} {Q : κ → κ → Prop}
    (hlift : ∀ i j ks ks', Seen i ks → Seen j ks' → (∀ k ∈ ks, ∀ k' ∈ ks', Q k k') → P i j)
    {labels : List ι} {kss : List (List κ)} (hseen : List.Forall₂ Seen labels kss)
    (h : kss.flatten.Pairwise Q) : labels.Pairwise P := by
  have hpair := (List.pairwise_flatten.mp h).2
  clear h
  induction hseen with
  | nil => exact .nil
  | cons hfirst hrest ih =>
      rcases List.pairwise_cons.mp hpair with ⟨hhead, htail⟩
      refine .cons ?_ (ih htail)
      intro j hj
      rcases List.forall₂_iff_get.mp hrest with ⟨hlen, hget⟩
      rcases List.mem_iff_getElem.mp hj with ⟨n, hn, rfl⟩
      exact hlift _ _ _ _ hfirst (hget n hn (hlen ▸ hn)) (hhead _ (List.getElem_mem _))

end SecureBoot.Transition
