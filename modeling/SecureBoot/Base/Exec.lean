/-!
# Programs with state and an early exit

Reasoning rules for `EStateM`: running a sequence, and a precondition
transformer with one postcondition for normal return and one for an exit.
-/

namespace SecureBoot.Exec

variable {ε σ α β : Type}

/-! ## Running a sequence -/

theorem bind_of_ok {x : EStateM ε σ α} {s s' : σ} {a : α} (h : x s = .ok a s')
    (f : α → EStateM ε σ β) : (x >>= f) s = f a s' := by
  show EStateM.bind x f s = _
  rw [EStateM.bind, h]

theorem bind_of_error {x : EStateM ε σ α} {s s' : σ} {e : ε} (h : x s = .error e s')
    (f : α → EStateM ε σ β) : (x >>= f) s = .error e s' := by
  show EStateM.bind x f s = _
  rw [EStateM.bind, h]

@[simp] theorem pure_apply (a : α) (s : σ) : (pure a : EStateM ε σ α) s = .ok a s := rfl

@[simp] theorem get_apply (s : σ) : (get : EStateM ε σ σ) s = .ok s s := rfl

@[simp] theorem modify_apply (f : σ → σ) (s : σ) :
    (modify f : EStateM ε σ PUnit) s = .ok ⟨⟩ (f s) := rfl

/-- A sequence that returned, taken apart. -/
theorem ok_of_bind {x : EStateM ε σ α} {f : α → EStateM ε σ β} {s s' : σ} {b : β}
    (h : (x >>= f) s = .ok b s') : ∃ a s₁, x s = .ok a s₁ ∧ f a s₁ = .ok b s' := by
  cases hx : x s with
  | ok a s₁ =>
      rw [bind_of_ok hx] at h
      exact ⟨a, s₁, rfl, h⟩
  | error e s₁ =>
      rw [bind_of_error hx] at h
      cases h

/-- A sequence that failed did so in its first part or in its second. -/
theorem error_of_bind {x : EStateM ε σ α} {f : α → EStateM ε σ β} {s s' : σ} {e : ε}
    (h : (x >>= f) s = .error e s') :
    x s = .error e s' ∨ ∃ a s₁, x s = .ok a s₁ ∧ f a s₁ = .error e s' := by
  cases hx : x s with
  | ok a s₁ =>
      rw [bind_of_ok hx] at h
      exact .inr ⟨a, s₁, rfl, h⟩
  | error e' s₁ =>
      rw [bind_of_error hx] at h
      cases h
      exact .inl rfl

/-! ## Preconditions -/

/-- From `s` the program returns into `Q` or exits into `E`. -/
@[irreducible] def Wp (x : EStateM ε σ α) (Q : α → σ → Prop) (E : ε → σ → Prop) (s : σ) : Prop :=
  match x s with
  | .ok a s' => Q a s'
  | .error e s' => E e s'

theorem wp_of_ok {x : EStateM ε σ α} {Q : α → σ → Prop} {E : ε → σ → Prop} {s s' : σ} {a : α}
    (h : x s = .ok a s') (hQ : Q a s') : Wp x Q E s := by
  rw [Wp, h]
  exact hQ

theorem wp_of_error {x : EStateM ε σ α} {Q : α → σ → Prop} {E : ε → σ → Prop} {s s' : σ} {e : ε}
    (h : x s = .error e s') (hE : E e s') : Wp x Q E s := by
  rw [Wp, h]
  exact hE

theorem Wp.ok {x : EStateM ε σ α} {Q : α → σ → Prop} {E : ε → σ → Prop} {s s' : σ} {a : α}
    (hw : Wp x Q E s) (h : x s = .ok a s') : Q a s' := by
  rwa [Wp, h] at hw

theorem Wp.error {x : EStateM ε σ α} {Q : α → σ → Prop} {E : ε → σ → Prop} {s s' : σ} {e : ε}
    (hw : Wp x Q E s) (h : x s = .error e s') : E e s' := by
  rwa [Wp, h] at hw

/-- A property of the result, case by case. -/
theorem Wp.result {x : EStateM ε σ α} {P : EStateM.Result ε σ α → Prop} {s : σ}
    (hw : Wp x (fun a s' => P (.ok a s')) (fun e s' => P (.error e s')) s) : P (x s) := by
  cases h : x s with
  | ok a s' => exact hw.ok h
  | error e s' => exact hw.error h

theorem Wp.mono {x : EStateM ε σ α} {Q Q' : α → σ → Prop} {E E' : ε → σ → Prop} {s : σ}
    (h : Wp x Q E s) (hQ : ∀ a s, Q a s → Q' a s) (hE : ∀ e s, E e s → E' e s) :
    Wp x Q' E' s := by
  cases hx : x s with
  | ok a s' => exact wp_of_ok hx (hQ a s' (h.ok hx))
  | error e s' => exact wp_of_error hx (hE e s' (h.error hx))

/-- The outcome may be remembered as an equation. -/
theorem Wp.withRun {x : EStateM ε σ α} {Q : α → σ → Prop} {E : ε → σ → Prop} {s : σ}
    (h : Wp x Q E s) : Wp x (fun a s' => x s = .ok a s' ∧ Q a s')
      (fun e s' => x s = .error e s' ∧ E e s') s := by
  cases hx : x s with
  | ok a s' => exact wp_of_ok hx ⟨rfl, h.ok hx⟩
  | error e s' => exact wp_of_error hx ⟨rfl, h.error hx⟩

theorem Wp.congr {x y : EStateM ε σ α} {Q : α → σ → Prop} {E : ε → σ → Prop} {s : σ}
    (h : Wp y Q E s) (heq : x s = y s) : Wp x Q E s := by
  cases hx : x s with
  | ok a s' => exact wp_of_ok hx (h.ok (heq ▸ hx))
  | error e s' => exact wp_of_error hx (h.error (heq ▸ hx))

theorem wp_bind {x : EStateM ε σ α} {f : α → EStateM ε σ β} {Q : β → σ → Prop}
    {E : ε → σ → Prop} {s : σ} (h : Wp x (fun a => Wp (f a) Q E) E s) : Wp (x >>= f) Q E s := by
  cases hx : x s with
  | ok a s' =>
      have hf := h.ok hx
      rw [Wp] at hf ⊢
      rw [bind_of_ok hx]
      exact hf
  | error e s' =>
      rw [Wp, bind_of_error hx]
      exact h.error hx

/-- A step whose specification is known, then the rest from where it returned. -/
theorem Wp.bind {x : EStateM ε σ α} {f : α → EStateM ε σ β} {P : α → σ → Prop}
    {Q : β → σ → Prop} {E E₁ : ε → σ → Prop} {s : σ} (hx : Wp x P E₁ s)
    (hf : ∀ a s', P a s' → Wp (f a) Q E s') (hE : ∀ e s', E₁ e s' → E e s') :
    Wp (x >>= f) Q E s :=
  wp_bind (hx.mono hf hE)

theorem wp_ite {c : Prop} [Decidable c] {x y : EStateM ε σ α} {Q : α → σ → Prop}
    {E : ε → σ → Prop} {s : σ} (ht : c → Wp x Q E s) (hf : ¬ c → Wp y Q E s) :
    Wp (if c then x else y) Q E s := by
  by_cases h : c
  · rw [if_pos h]
    exact ht h
  · rw [if_neg h]
    exact hf h

/-! ## Relations between the states before and after -/

/-- From every state the program returns along `R` or exits along `E`. -/
def Moves (R : σ → σ → Prop) (E : ε → σ → σ → Prop) (x : EStateM ε σ α) : Prop :=
  ∀ s, Wp x (fun _ s' => R s s') (fun e s' => E e s s') s

variable {R R₁ R₂ : σ → σ → Prop} {E E₁ E₂ : ε → σ → σ → Prop} {x : EStateM ε σ α}
  {f : α → EStateM ε σ β}

theorem Moves.ok (h : Moves R E x) {s s' : σ} {a : α} (hx : x s = .ok a s') : R s s' :=
  (h s).ok hx

theorem Moves.error (h : Moves R E x) {s s' : σ} {e : ε} (hx : x s = .error e s') : E e s s' :=
  (h s).error hx

theorem Moves.pure (hR : ∀ s, R s s) (a : α) : Moves R E (pure a : EStateM ε σ α) :=
  fun s => wp_of_ok rfl (hR s)

theorem Moves.get (hR : ∀ s, R s s) : Moves R E (get : EStateM ε σ σ) :=
  fun s => wp_of_ok (get_apply s) (hR s)

theorem Moves.modify (g : σ → σ) (hR : ∀ s, R s (g s)) :
    Moves R E (modify g : EStateM ε σ PUnit) :=
  fun s => wp_of_ok (modify_apply g s) (hR s)

theorem Moves.mono (h : Moves R₁ E₁ x) (hR : ∀ s s', R₁ s s' → R s s')
    (hE : ∀ e s s', E₁ e s s' → E e s s') : Moves R E x :=
  fun s => (h s).mono (fun _ s' => hR s s') fun e s' => hE e s s'

theorem Moves.bind (hx : Moves R₁ E₁ x) (hf : ∀ a, Moves R₂ E₂ (f a))
    (hR : ∀ s s₁ s', R₁ s s₁ → R₂ s₁ s' → R s s') (hE₁ : ∀ e s s', E₁ e s s' → E e s s')
    (hE₂ : ∀ e s s₁ s', R₁ s s₁ → E₂ e s₁ s' → E e s s') : Moves R E (x >>= f) := by
  intro s
  refine (hx s).bind ?_ fun e s' => hE₁ e s s'
  intro a s₁ h₁
  exact (hf a s₁).mono (fun _ s' => hR s s₁ s' h₁) fun e s' => hE₂ e s s₁ s' h₁

theorem Moves.ite {c : Prop} [Decidable c] {y : EStateM ε σ α} (hx : Moves R E x)
    (hy : Moves R E y) : Moves R E (if c then x else y) := by
  by_cases h : c
  · rw [if_pos h]
    exact hx
  · rw [if_neg h]
    exact hy

end SecureBoot.Exec
