/-!
# Executions with a trace

A partial computation together with what it did. The trace of a computation
that stops early ends with the event that stopped it.
-/

namespace SecureBoot

structure Traced (ε α : Type) where
  events : List ε
  /-- `none` when it does not return. -/
  result : Option α

namespace Traced

variable {ε α β : Type}

def emit (e : ε) : Traced ε Unit := ⟨[e], some ()⟩

def pure (a : α) : Traced ε α := ⟨[], some a⟩

def bind (x : Traced ε α) (f : α → Traced ε β) : Traced ε β :=
  match x.result with
  | none => ⟨x.events, none⟩
  | some a => ⟨x.events ++ (f a).events, (f a).result⟩

instance : Monad (Traced ε) where
  pure := pure
  bind := bind

/-- The trace of a sequence is that of its parts. -/
theorem bind_eq {x : Traced ε α} {f : α → Traced ε β} {a : α} {first second : List ε}
    {r : Option β} (hx : x = ⟨first, some a⟩) (hf : f a = ⟨second, r⟩) :
    x >>= f = ⟨first ++ second, r⟩ := by
  subst hx
  show (⟨first ++ (f a).events, (f a).result⟩ : Traced ε β) = _
  rw [hf]

/-- A sequence that returned has parts that returned. -/
theorem bind_returned {x : Traced ε α} {f : α → Traced ε β} {events : List ε} {b : β}
    (h : x >>= f = ⟨events, some b⟩) :
    ∃ first a second, x = ⟨first, some a⟩ ∧ f a = ⟨second, some b⟩ ∧
      events = first ++ second := by
  rcases x with ⟨first, result⟩
  cases result with
  | none => cases h
  | some a =>
      injection h with hevents hresult
      refine ⟨first, a, (f a).events, rfl, ?_, hevents.symm⟩
      rw [← hresult]

end Traced

end SecureBoot
