import SecureBoot.Base.Exec

/-!
# Two programs side by side

One program on two kinds of state. They agree if from related states both return the same value
or leave by the same exit, in related states again.
-/

namespace SecureBoot.Relational

open Exec

variable {ε σ τ α β : Type}

/-- The same end, related by `R` after a return and by `E` after an exit. -/
inductive Match (R E : σ → τ → Prop) : EStateM.Result ε σ α → EStateM.Result ε τ α → Prop
  | ok (a : α) (s : σ) (t : τ) (h : R s t) : Match R E (.ok a s) (.ok a t)
  | error (e : ε) (s : σ) (t : τ) (h : E s t) : Match R E (.error e s) (.error e t)

variable {R R' E E' : σ → τ → Prop} {x : EStateM ε σ α} {y : EStateM ε τ α}
  {f : α → EStateM ε σ β} {g : α → EStateM ε τ β} {s : σ} {t : τ}

theorem Match.mono {r : EStateM.Result ε σ α} {r' : EStateM.Result ε τ α} (h : Match R E r r')
    (hR : ∀ s t, R s t → R' s t) (hE : ∀ s t, E s t → E' s t) : Match R' E' r r' := by
  cases h with
  | ok a s t h => exact .ok a s t (hR s t h)
  | error e s t h => exact .error e s t (hE s t h)

theorem Match.of_ok {a : α} {s' : σ} {t' : τ} (hx : x s = .ok a s') (hy : y t = .ok a t')
    (h : R s' t') : Match R E (x s) (y t) := by
  rw [hx, hy]
  exact .ok a s' t' h

theorem Match.of_error {e : ε} {s' : σ} {t' : τ} (hx : x s = .error e s') (hy : y t = .error e t')
    (h : E s' t') : Match R E (x s) (y t) := by
  rw [hx, hy]
  exact .error e s' t' h

/-- The rest is compared from where both returned. -/
theorem Match.bind (h : Match R E (x s) (y t))
    (hf : ∀ a s' t', x s = .ok a s' → y t = .ok a t' → R s' t' → Match R' E (f a s') (g a t')) :
    Match R' E ((x >>= f) s) ((y >>= g) t) := by
  cases hx : x s with
  | ok a s' =>
      cases hy : y t with
      | ok b t' =>
          rw [hx, hy] at h
          cases h with
          | ok _ _ _ h =>
              rw [bind_of_ok hx, bind_of_ok hy]
              exact hf a s' t' hx hy h
      | error e t' =>
          rw [hx, hy] at h
          cases h
  | error e s' =>
      cases hy : y t with
      | ok b t' =>
          rw [hx, hy] at h
          cases h
      | error e' t' =>
          rw [hx, hy] at h
          cases h with
          | error _ _ _ h =>
              rw [bind_of_error hx, bind_of_error hy]
              exact .error e s' t' h

/-- From all related states. -/
def Agree (R : σ → τ → Prop) (x : EStateM ε σ α) (y : EStateM ε τ α) : Prop :=
  ∀ s t, R s t → Match R R (x s) (y t)

theorem Agree.pure (a : α) : Agree R (pure a : EStateM ε σ α) (pure a : EStateM ε τ α) :=
  fun s t h => .ok a s t h

theorem Agree.bind (h : Agree R x y) (hf : ∀ a, Agree R (f a) (g a)) :
    Agree R (x >>= f) (y >>= g) :=
  fun s t hst => (h s t hst).bind fun a s' t' _ _ h' => hf a s' t' h'

theorem Agree.ite {c : Prop} [Decidable c] {x' : EStateM ε σ α} {y' : EStateM ε τ α}
    (ht : Agree R x y) (hf : Agree R x' y') :
    Agree R (if c then x else x') (if c then y else y') := by
  by_cases h : c
  · rw [if_pos h, if_pos h]
    exact ht
  · rw [if_neg h, if_neg h]
    exact hf

end SecureBoot.Relational
