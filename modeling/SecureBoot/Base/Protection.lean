import SecureBoot.Base.Words

/-!
# RISC-V physical memory protection

Which accesses a table of PMP entries allows. The lowest entry that matches any
byte of an access decides; it must match all of them.
-/

namespace SecureBoot.Protection

inductive Mode where
  | user
  | supervisor
  | machine
deriving DecidableEq, Repr

inductive Kind where
  | load
  | store
  | fetch
deriving DecidableEq, Repr

/-- An access to `size` bytes from `first` on, of any alignment. -/
structure Access where
  mode : Mode
  kind : Kind
  first : Nat
  size : Nat
  positive : 0 < size

/-! ## Regions -/

/-- The physical addresses from `first` on and below `past`. -/
structure Region where
  first : Nat
  past : Nat
deriving DecidableEq, Repr

namespace Region

def Contains (r : Region) (x : Nat) : Prop := r.first ≤ x ∧ x < r.past

/-- Some byte of the access lies in the region. -/
def Touches (r : Region) (a : Access) : Prop :=
  max r.first a.first < min r.past (a.first + a.size)

/-- Every byte of the access lies in the region. -/
def Covers (r : Region) (a : Access) : Prop := r.first ≤ a.first ∧ a.first + a.size ≤ r.past

instance (r : Region) (a : Access) : Decidable (r.Touches a) := inferInstanceAs (Decidable (_ < _))

instance (r : Region) (a : Access) : Decidable (r.Covers a) := inferInstanceAs (Decidable (_ ∧ _))

theorem touches_iff (r : Region) (a : Access) :
    r.Touches a ↔ ∃ i, i < a.size ∧ r.Contains (a.first + i) := by
  unfold Touches Contains
  constructor
  · intro h
    exact ⟨max r.first a.first - a.first, by omega, by omega, by omega⟩
  · intro h
    rcases h with ⟨i, hi, hfirst, hpast⟩
    omega

theorem covers_iff (r : Region) (a : Access) :
    r.Covers a ↔ ∀ i, i < a.size → r.Contains (a.first + i) := by
  have hpos := a.positive
  unfold Covers Contains
  constructor
  · intro h i hi
    omega
  · intro h
    have hlow := h 0 hpos
    have hhigh := h (a.size - 1) (by omega)
    omega

theorem Covers.touches {r : Region} {a : Access} (h : r.Covers a) : r.Touches a :=
  (touches_iff r a).mpr ⟨0, a.positive, (covers_iff r a).mp h 0 a.positive⟩

/-- A byte in a later region is outside an earlier one. -/
theorem Touches.not_covers {r r' : Region} {a : Access} (h : r.Touches a)
    (hapart : r'.past ≤ r.first) : ¬ r'.Covers a := by
  intro hcovers
  rcases (touches_iff r a).mp h with ⟨i, hi, hfirst, _⟩
  have hpast := ((covers_iff r' a).mp hcovers i hi).2
  omega

end Region

/-! ## Entries -/

/-- A configuration byte and an address register, which holds bits 55 to 2 of an address. -/
structure Entry where
  cfg : Byte
  addr : Nat
deriving DecidableEq, Repr

/-- The consecutive ones at the low end of a register of `width` bits. -/
def trailingOnes : Nat → Nat → Nat
  | 0, _ => 0
  | width + 1, x => if x % 2 = 1 then trailingOnes width (x / 2) + 1 else 0

/-- NAPOT: with `t` trailing ones the region has 2^(t+3) bytes. -/
def napotRegion (addr : Nat) : Region :=
  let t := trailingOnes 54 addr
  ⟨addr / 2 ^ (t + 1) * 2 ^ (t + 3), (addr / 2 ^ (t + 1) + 1) * 2 ^ (t + 3)⟩

namespace Entry

variable (e : Entry)

def locked : Bool := e.cfg.getLsbD 7

def permits : Kind → Bool
  | .load => e.cfg.getLsbD 0
  | .store => e.cfg.getLsbD 1
  | .fetch => e.cfg.getLsbD 2

/-- The A field; `below` is the address register of the entry before. -/
def region (below : Nat) : Region :=
  match (e.cfg.extractLsb' 3 2).toNat with
  | 0 => ⟨0, 0⟩
  | 1 => ⟨4 * below, 4 * e.addr⟩
  | 2 => ⟨4 * e.addr, 4 * e.addr + 4⟩
  | _ => napotRegion e.addr

end Entry

/-- The verdict of entries that follow one with address register `below`. -/
def allows (a : Access) : Nat → List Entry → Bool
  | _, [] => a.mode = .machine
  | below, e :: rest =>
      if (e.region below).Touches a then
        (e.region below).Covers a && (e.permits a.kind || (a.mode = .machine && !e.locked))
      else allows a e.addr rest

/-! ## Rules -/

section Rules

variable {a : Access} {below : Nat} {e : Entry} {rest : List Entry} {r : Region}

theorem allows_of_clear (hr : e.region below = r) (h : ¬ r.Touches a) :
    allows a below (e :: rest) = allows a e.addr rest := by
  rw [allows, hr, if_neg h]

/-- A locked entry decides alike in every mode. -/
theorem allows_of_touches (hr : e.region below = r) (hlocked : e.locked = true)
    (h : r.Touches a) : allows a below (e :: rest) = (decide (r.Covers a) && e.permits a.kind) := by
  rw [allows, hr, if_pos h, hlocked]
  simp

theorem not_touches_empty (x : Nat) : ¬ (⟨x, x⟩ : Region).Touches a := by
  simp only [Region.Touches]
  omega

/-- Entries that are OFF leave the decision to the mode. -/
theorem allows_of_off (hoff : ∀ e ∈ rest, e.cfg.extractLsb' 3 2 = 0) (below : Nat) :
    allows a below rest = decide (a.mode = .machine) := by
  induction rest generalizing below with
  | nil => rfl
  | cons e rest ih =>
      have hregion : e.region below = ⟨0, 0⟩ := by
        rw [Entry.region, hoff e List.mem_cons_self]
        rfl
      rw [allows_of_clear hregion (not_touches_empty 0)]
      exact ih (fun e' he' => hoff e' (List.mem_cons_of_mem e he')) e.addr

end Rules

/-! ## NAPOT encodings -/

theorem trailingOnes_even (width m : Nat) : trailingOnes width (2 * m) = 0 := by
  cases width with
  | zero => rfl
  | succ width =>
      rw [trailingOnes, if_neg (by omega)]

theorem trailingOnes_odd (width m : Nat) :
    trailingOnes (width + 1) (2 * m + 1) = trailingOnes width m + 1 := by
  rw [trailingOnes, if_pos (by omega), show (2 * m + 1) / 2 = m by omega]

/-- `j` ones below a zero. -/
theorem trailingOnes_encode (width j m : Nat) (hj : j ≤ width) :
    trailingOnes width (m * 2 ^ (j + 1) + (2 ^ j - 1)) = j := by
  induction j generalizing width with
  | zero =>
      have heven : m * 2 ^ (0 + 1) + (2 ^ 0 - 1) = 2 * m := by omega
      rw [heven]
      exact trailingOnes_even width m
  | succ j ih =>
      cases width with
      | zero => omega
      | succ width =>
          have hpos : 0 < 2 ^ j := Nat.two_pow_pos j
          have hm : m * 2 ^ (j + 2) = 2 * (m * 2 ^ (j + 1)) := by
            rw [Nat.pow_succ 2 (j + 1), ← Nat.mul_assoc, Nat.mul_comm]
          have hodd : m * 2 ^ (j + 2) + (2 ^ (j + 1) - 1) =
              2 * (m * 2 ^ (j + 1) + (2 ^ j - 1)) + 1 := by
            rw [hm, Nat.pow_succ 2 j]
            omega
          rw [hodd, trailingOnes_odd, ih width (by omega)]

/-- The address register that encodes the `m`-th region of 2^(j+3) bytes. -/
theorem napotRegion_encode (j m : Nat) (hj : j ≤ 54) :
    napotRegion (m * 2 ^ (j + 1) + (2 ^ j - 1)) =
      ⟨m * 2 ^ (j + 3), (m + 1) * 2 ^ (j + 3)⟩ := by
  have hpos : 0 < 2 ^ j := Nat.two_pow_pos j
  have hquot : (m * 2 ^ (j + 1) + (2 ^ j - 1)) / 2 ^ (j + 1) = m := by
    have hlt : 2 ^ j - 1 < 2 ^ (j + 1) := by
      rw [Nat.pow_succ]
      omega
    rw [Nat.add_comm, Nat.add_mul_div_right _ _ (Nat.two_pow_pos _), Nat.div_eq_of_lt hlt,
      Nat.zero_add]
  rw [napotRegion, trailingOnes_encode 54 j m hj, hquot]

end SecureBoot.Protection
