import SecureBoot.Base.Waveform
import SecureBoot.Hardware.Spi.Slave

/-!
# The protocol at the pins

The flash under every mode-0 waveform: any contents, any duration of each level
of `sclk`, any history before the transaction.
-/

namespace SecureBoot.Spi

open Waveform

/-- The inputs at one clock edge. -/
structure Pins where
  cs_n : Bool
  sclk : Bool
  mosi : Bool
deriving DecidableEq, Repr

namespace Slave

variable (f : Storage)

def clock (s : Slave) (p : Pins) : Slave := s.step f p.cs_n p.sclk p.mosi

def run (s : Slave) (pins : List Pins) : Slave := Clocked.run (clock f) s pins

/-- Out of reset. -/
def reset : Slave := deselected false

/-- A clock of a transaction. -/
def selected (l : Line) : Pins := ⟨false, l.sclk, l.data⟩

/-- A transaction so far: `cs_n` is low for a clock before `sclk` may rise. -/
def transaction (mosi : Bool) (w : List Line) : List Pins := (⟨false, mosi⟩ :: w).map selected

/-! ## READ -/

/-- The registers `n` falling edges into a READ. -/
def reading (address : BitVec 24) (n : Nat) (sclk : Bool) : Slave :=
  if n + sclk.toNat < 32 then received address (n + sclk.toNat) sclk
  else streaming f address (n - 31) sclk

theorem step_level (address : BitVec 24) (k : Nat) (sclk mosi : Bool) :
    (received address k sclk).step f false sclk mosi = received address k sclk := by
  unfold received
  by_cases h : k < 8
  · cases sclk <;> simp [step, h, deselected]
  · cases sclk <;> simp [step, h, deselected]

theorem reading_follows (address : BitVec 24) :
    Follows (fun s l => clock f s (selected l)) 32 (txBit address) (reading f address) where
  hold := by
    intro n c data
    show (reading f address n c).step f false c data = _
    unfold reading
    split
    · exact step_level f address _ c data
    · rw [step_streaming]
      cases c <;> rfl
  rise := by
    intro n data hdata
    show (reading f address n false).step f false true data = reading f address n true
    unfold reading
    rw [show n + false.toNat = n from rfl, show n + true.toNat = n + 1 from rfl]
    by_cases hlast : n < 31
    · rw [if_pos (by omega), if_pos (by omega), hdata (by omega)]
      exact step_rise f address n hlast
    · by_cases h : n = 31
      · subst h
        rw [if_pos (by omega), if_neg (by omega), hdata (by omega)]
        exact step_lastRise f address
      · rw [if_neg (by omega), if_neg (by omega), step_streaming]
        rfl
  fall := by
    intro n data
    show (reading f address n true).step f false false data = reading f address (n + 1) false
    unfold reading
    rw [show n + true.toNat = n + 1 from rfl, show n + 1 + false.toNat = n + 1 from rfl]
    split
    · exact step_low f address _ true data
    · rw [step_streaming, show n + 1 - 31 = n - 31 + 1 by omega]
      rfl

/-! ## Other commands -/

/-- The registers `n` falling edges into a transaction with another command. -/
def ignoring (command : Byte) (n : Nat) (sclk : Bool) : Slave :=
  if n + sclk.toNat < 8 then
    { deselected sclk with
      state := .sCommand
      commandReg := command >>> (8 - (n + sclk.toNat))
      commandBits := n + sclk.toNat }
  else { deselected sclk with state := .sIgnore, commandReg := command }

def commandBit (command : Byte) (k : Nat) : Bool := command.getLsbD (7 - k)

theorem ignoring_follows (command : Byte) (hother : command ≠ 0x03) :
    Follows (fun s l => clock f s (selected l)) 8 (commandBit command) (ignoring command) where
  hold := by
    intro n c data
    show (ignoring command n c).step f false c data = _
    unfold ignoring
    split
    · cases c <;> rfl
    · rfl
  rise := by
    intro n data hdata
    show (ignoring command n false).step f false true data = ignoring command n true
    unfold ignoring
    rw [show n + false.toNat = n from rfl, show n + true.toNat = n + 1 from rfl]
    by_cases h : n < 8
    · have hshift := shiftConcat_ushiftRight command n h
      rw [show 8 - 1 - n = 7 - n by omega] at hshift
      rw [if_pos h, hdata h, commandBit]
      by_cases hlast : n = 7
      · subst hlast
        generalize command.getLsbD (7 - 7) = last at hshift ⊢
        have hwhole : (command >>> 1).shiftConcat last = command := hshift
        have hread : ¬ command = 3#8 := hother
        simp [step, deselected, shiftCommand, hwhole, hread]
      · rw [if_pos (by omega)]
        simp [step, deselected, shiftCommand, hlast, hshift]
    · rw [if_neg h, if_neg (by omega)]
      rfl
  fall := by
    intro n data
    show (ignoring command n true).step f false false data = ignoring command (n + 1) false
    unfold ignoring
    rw [show n + true.toNat = n + 1 from rfl, show n + 1 + false.toNat = n + 1 from rfl]
    split
    · rfl
    · rfl

/-! ## The protocol -/

/-- Selection forgets the level of `sclk` before. -/
theorem select_reading (address : BitVec 24) (c mosi : Bool) :
    clock f (deselected c) (selected ⟨false, mosi⟩) = reading f address 0 false := rfl

theorem select_ignoring (command : Byte) (c mosi : Bool) :
    clock f (deselected c) (selected ⟨false, mosi⟩) = ignoring command 0 false := by
  have hempty : command >>> 8 = 0 := BitVec.ushiftRight_eq_zero (Nat.le_refl 8)
  show ({ deselected c with state := .sCommand, sclkPrev := false } : Slave) = _
  simp [ignoring, deselected, hempty]

/-- A transaction that some circuit state follows. -/
theorem run_transaction {bits : Nat} {bit : Nat → Bool} {state : Nat → Bool → Slave} {s : Slave}
    {mosi : Bool} {w : List Line}
    (h : Follows (fun s l => clock f s (selected l)) bits bit state)
    (hselect : clock f s (selected ⟨false, mosi⟩) = state 0 false)
    (hbits : (rises false w).take bits = (List.range bits).map bit) :
    run f s (transaction mosi w) = state (falls false w) (level false w) := by
  have hdata : ∀ i b, (rises false w)[i]? = some b → 0 + false.toNat + i < bits →
      b = bit (0 + false.toNat + i) := by
    intro i b hi hlt
    rw [show 0 + false.toNat + i = i from Nat.zero_add i] at hlt ⊢
    have hget := congrArg (fun l => l[i]?) hbits
    simp only [List.getElem?_take_of_lt hlt, hi, List.getElem?_map, List.getElem?_range hlt,
      Option.map_some, Option.some.injEq] at hget
    exact hget
  rw [run, transaction, List.map_cons, Clocked.run_cons, hselect, Clocked.run, List.foldl_map]
  rw [← Nat.zero_add (falls false w)]
  exact h.run w 0 false hdata

/-- The transactions that start with `cs_n` falling in state `s`. -/
structure Protocol (s : Slave) : Prop where
  /-- Bit `m` of the answer is on the pin from one falling edge to the next. -/
  read : ∀ (address : BitVec 24) (mosi : Bool) (w : List Line) (m : Nat),
    (rises false w).take 32 = (List.range 32).map (txBit address) → falls false w = 32 + m →
      (run f s (transaction mosi w)).miso false = (f.byte address (m / 8)).getLsbD (7 - m % 8)
  other : ∀ (command : Byte) (mosi : Bool) (w : List Line), command ≠ 0x03 →
    (rises false w).take 8 = (List.range 8).map (commandBit command) →
      (run f s (transaction mosi w)).miso false = false

theorem deselected_protocol (c : Bool) : Protocol f (deselected c) where
  read := by
    intro address mosi w m hbits hfalls
    rw [run_transaction f (reading_follows f address) (select_reading f address c mosi) hbits,
      hfalls, reading, if_neg (by omega), show 32 + m - 31 = m + 1 by omega]
    exact miso_streaming f address m _
  other := by
    intro command mosi w hother hbits
    rw [run_transaction f (ignoring_follows f command hother) (select_ignoring f command c mosi)
      hbits, ignoring]
    split
    · rfl
    · rfl

/-- Deselection leaves nothing of the past but the level of `sclk`. -/
theorem run_deselected (s : Slave) (past : List Pins) (sclk mosi : Bool) :
    run f s (past ++ [⟨true, sclk, mosi⟩]) = deselected sclk := by
  rw [run, Clocked.run, List.foldl_append]
  rfl

/-- Nor does that show on the pin. -/
theorem run_selected_congr (c c' : Bool) (w : List Line) :
    (run f (deselected c) (w.map selected)).miso false =
      (run f (deselected c') (w.map selected)).miso false := by
  cases w with
  | nil => rfl
  | cons l w => rfl

/-- Out of reset and after every history that ends with a clock of high `cs_n`, the slave answers
by the protocol; what it answers does not depend on that history. -/
theorem slave_protocol :
    Protocol f reset ∧ ∀ (past : List Pins) (sclk mosi : Bool),
      Protocol f (run f reset (past ++ [⟨true, sclk, mosi⟩])) ∧
        ∀ (past' : List Pins) (sclk' mosi' : Bool) (w : List Line),
          (run f (run f reset (past ++ [⟨true, sclk, mosi⟩])) (w.map selected)).miso false =
            (run f (run f reset (past' ++ [⟨true, sclk', mosi'⟩])) (w.map selected)).miso
              false := by
  refine ⟨deselected_protocol f false, fun past sclk mosi => ?_⟩
  rw [run_deselected]
  refine ⟨deselected_protocol f sclk, fun past' sclk' mosi' w => ?_⟩
  rw [run_deselected]
  exact run_selected_congr f sclk sclk' w

end Slave

end SecureBoot.Spi
