import SecureBoot.Base.Clocked

/-!
# Waveforms on a serial clock

A serial clock and its data line, sampled on every edge of a faster clock. A
circuit that reacts to the edges of the serial clock alone is described by its
registers after so many of them, however long each level lasts.
-/

namespace SecureBoot.Waveform

structure Line where
  sclk : Bool
  data : Bool

/-- The data at each rising edge, from a level before. -/
def rises : Bool → List Line → List Bool
  | _, [] => []
  | c, l :: w => if !c && l.sclk then l.data :: rises l.sclk w else rises l.sclk w

/-- The falling edges. -/
def falls : Bool → List Line → Nat
  | _, [] => 0
  | c, l :: w => falls l.sclk w + (c && !l.sclk).toNat

/-- The level at the end. -/
def level : Bool → List Line → Bool
  | c, [] => c
  | _, l :: w => level l.sclk w

section Follows

variable {σ : Type} {step : σ → Line → σ}

/-- The registers after `n` falling edges at either level. Data matters at rising edges only,
and at the first `bits` of them it is `bit`. -/
structure Follows (step : σ → Line → σ) (bits : Nat) (bit : Nat → Bool)
    (state : Nat → Bool → σ) : Prop where
  hold : ∀ n c data, step (state n c) ⟨c, data⟩ = state n c
  rise : ∀ n data, (n < bits → data = bit n) → step (state n false) ⟨true, data⟩ = state n true
  fall : ∀ n data, step (state n true) ⟨false, data⟩ = state (n + 1) false

/-- The registers after a waveform. -/
theorem Follows.run {bits : Nat} {bit : Nat → Bool} {state : Nat → Bool → σ}
    (h : Follows step bits bit state) (w : List Line) (n : Nat) (c : Bool)
    (hdata : ∀ i b, (rises c w)[i]? = some b → n + c.toNat + i < bits →
      b = bit (n + c.toNat + i)) :
    Clocked.run step (state n c) w = state (n + falls c w) (level c w) := by
  induction w generalizing n c with
  | nil => rfl
  | cons l w ih =>
      obtain ⟨sclk, data⟩ := l
      rw [Clocked.run_cons, falls, level]
      cases c with
      | false =>
          cases sclk with
          | false =>
              rw [h.hold]
              exact ih n false hdata
          | true =>
              have hfirst : n < bits → data = bit n := hdata 0 data rfl
              rw [h.rise n data hfirst]
              refine ih n true fun i b hi hlt => ?_
              rw [show n + true.toNat + i = n + false.toNat + (i + 1) by simp; omega] at hlt ⊢
              exact hdata (i + 1) b hi hlt
      | true =>
          cases sclk with
          | false =>
              have hrest := ih (n + 1) false hdata
              rw [Nat.add_right_comm] at hrest
              rw [h.fall]
              exact hrest
          | true =>
              rw [h.hold]
              exact ih n true hdata

end Follows

end SecureBoot.Waveform
