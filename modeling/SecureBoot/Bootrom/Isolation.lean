import SecureBoot.Base.Protection
import SecureBoot.Bootrom.Provision

/-!
# What the PMP keeps from the kernel

The entries that `lock_pmp` writes, read by the rules of the architecture, and
that nothing which runs later can change them.
-/

namespace SecureBoot.Bootrom

open Protection

/-! ## The PMP as a table -/

/-- The sixteen entries in order; an address register holds 54 bits. -/
def Pmp.entries (pmp : Pmp) : List Entry :=
  List.zipWith (fun cfg addr => ⟨cfg, addr.toNat % 2 ^ 54⟩) pmp.cfg.toList pmp.addr.toList

def Pmp.allows (pmp : Pmp) (a : Access) : Bool := Protection.allows a 0 pmp.entries

/-- A write by software to one of the CSRs. -/
inductive CsrWrite where
  | pmpcfg (i : Nat) (value : DWord)
  | pmpaddr (i : Nat) (value : DWord)

/-- Below machine mode the write traps; so it does for the odd `pmpcfg`, which do not exist on
RV64. -/
def Pmp.csrWrite (pmp : Pmp) : Mode × CsrWrite → Pmp
  | (.machine, .pmpcfg i value) => if i % 2 = 0 then pmp.writeCfg (4 * i) value else pmp
  | (.machine, .pmpaddr i value) => pmp.writeAddr i value
  | _ => pmp

/-! ## Locked entries -/

section Locked

variable {pmp : Pmp} (h : ∀ i < 16, pmp.locked i = true)
include h

theorem writeAddr_locked (i : Nat) (value : DWord) : pmp.writeAddr i value = pmp := by
  unfold Pmp.writeAddr
  by_cases hi : i < 16
  · rw [h i hi]
    rfl
  · split
    · rfl
    · rw [Vector.setIfInBounds_eq_of_size_le (by omega)]

theorem writeCfgByte_locked (i : Nat) (value : Byte) : pmp.writeCfgByte i value = pmp := by
  unfold Pmp.writeCfgByte
  by_cases hi : i < 16
  · rw [h i hi]
    rfl
  · split
    · rfl
    · rw [Vector.setIfInBounds_eq_of_size_le (by omega)]

theorem writeCfg_locked (first : Nat) (value : DWord) : pmp.writeCfg first value = pmp := by
  unfold Pmp.writeCfg
  generalize List.range 8 = bytes
  induction bytes with
  | nil => rfl
  | cons k bytes ih => rw [List.foldl_cons, writeCfgByte_locked h, ih]

theorem csrWrite_locked (w : Mode × CsrWrite) : pmp.csrWrite w = pmp := by
  rcases w with ⟨mode, write⟩
  cases mode with
  | machine =>
      cases write with
      | pmpcfg i value =>
          by_cases heven : i % 2 = 0
          · exact (if_pos heven).trans (writeCfg_locked h (4 * i) value)
          · exact if_neg heven
      | pmpaddr i value => exact writeAddr_locked h i value
  | supervisor => rfl
  | user => rfl

/-- With every entry locked no sequence of writes changes anything. -/
theorem csrWrites_locked (writes : List (Mode × CsrWrite)) :
    writes.foldl Pmp.csrWrite pmp = pmp := by
  induction writes with
  | nil => rfl
  | cons w writes ih => rw [List.foldl_cons, csrWrite_locked h, ih]

end Locked

/-! ## The regions -/

def bootromRegion : Region := ⟨0x10000, 0x20000⟩

def otpRegion : Region := ⟨0xF0000000, 0xF0000020⟩

def counterRegion : Region := ⟨0xF0001000, 0xF0001008⟩

/-- What the architecture enforces after `lock_pmp`, in every mode, for accesses below 2^54. -/
structure Isolated (pmp : Pmp) : Prop where
  otp : ∀ a, otpRegion.Touches a → pmp.allows a = false
  counter : ∀ a, counterRegion.Touches a → pmp.allows a = false
  bootromStore : ∀ a, a.kind = .store → bootromRegion.Touches a → pmp.allows a = false
  bootromRead : ∀ a, a.kind ≠ .store → bootromRegion.Covers a → pmp.allows a = true
  elsewhere : ∀ a, a.first + a.size ≤ 2 ^ 54 → ¬ bootromRegion.Touches a →
    ¬ otpRegion.Touches a → ¬ counterRegion.Touches a → pmp.allows a = true

/-! ## The entries of `lock_pmp` -/

def allRegion : Region := ⟨0, 2 ^ 54⟩

def bootromEntry : Entry := ⟨0x9D, 0x5FFF⟩

def otpEntry : Entry := ⟨0x98, 0x3C000003⟩

def counterEntry : Entry := ⟨0x98, 0x3C000400⟩

def allEntry : Entry := ⟨0x9F, 0x7FFFFFFFFFFFF⟩

theorem bootromEntry_permits (k : Kind) : bootromEntry.permits k = decide (k ≠ .store) := by
  cases k <;> rfl

theorem otpEntry_permits (k : Kind) : otpEntry.permits k = false := by
  cases k <;> rfl

theorem counterEntry_permits (k : Kind) : counterEntry.permits k = false := by
  cases k <;> rfl

theorem allEntry_permits (k : Kind) : allEntry.permits k = true := by
  cases k <;> rfl

/-- The twelve entries over the address registers that `lock_pmp` leaves alone. -/
def offEntries (addr : Vector DWord 16) : List Entry :=
  [4, 5, 6, 7, 8, 9, 10, 11, 12, 13, 14, 15].map fun i : Fin 16 =>
    ⟨0x80, (addr.get i).toNat % 2 ^ 54⟩

theorem bootPmp_entries (addr : Vector DWord 16) : (bootPmp addr).entries =
    bootromEntry :: otpEntry :: counterEntry :: allEntry :: offEntries addr := rfl

/-- The rules at work on the boot PMP. -/
theorem bootPmp_allows (addr : Vector DWord 16) (a : Access) : (bootPmp addr).allows a =
    if bootromRegion.Touches a then decide (bootromRegion.Covers a) && decide (a.kind ≠ .store)
    else if otpRegion.Touches a ∨ counterRegion.Touches a then false
    else if allRegion.Touches a then decide (allRegion.Covers a)
    else decide (a.mode = .machine) := by
  have hbootrom : bootromEntry.region 0 = bootromRegion := napotRegion_encode 13 1 (by omega)
  have hotp : otpEntry.region bootromEntry.addr = otpRegion :=
    napotRegion_encode 2 0x7800000 (by omega)
  have hcounter : counterEntry.region otpEntry.addr = counterRegion :=
    napotRegion_encode 0 0x1E000200 (by omega)
  have hall : allEntry.region counterEntry.addr = allRegion := napotRegion_encode 51 0 (by omega)
  have hoff : ∀ e ∈ offEntries addr, e.cfg.extractLsb' 3 2 = 0 := by
    intro e he
    obtain ⟨x, _, rfl⟩ := List.mem_map.mp he
    exact (by decide : (0x80 : Byte).extractLsb' 3 2 = 0)
  rw [Pmp.allows, bootPmp_entries]
  by_cases h₀ : bootromRegion.Touches a
  · rw [if_pos h₀, allows_of_touches hbootrom rfl h₀, bootromEntry_permits]
  · rw [if_neg h₀, allows_of_clear hbootrom h₀]
    by_cases h₁ : otpRegion.Touches a
    · rw [if_pos (.inl h₁), allows_of_touches hotp rfl h₁, otpEntry_permits, Bool.and_false]
    · rw [allows_of_clear hotp h₁]
      by_cases h₂ : counterRegion.Touches a
      · rw [if_pos (.inr h₂), allows_of_touches hcounter rfl h₂, counterEntry_permits,
          Bool.and_false]
      · rw [if_neg fun h => h.elim h₁ h₂, allows_of_clear hcounter h₂]
        by_cases h₃ : allRegion.Touches a
        · rw [if_pos h₃, allows_of_touches hall rfl h₃, allEntry_permits, Bool.and_true]
        · rw [if_neg h₃, allows_of_clear hall h₃]
          exact allows_of_off hoff _

/-- An access that touches a region covered by an entry it does not touch. -/
theorem bootPmp_isolated (addr : Vector DWord 16) : Isolated (bootPmp addr) where
  otp := by
    intro a h
    have hnot : ¬ bootromRegion.Covers a := h.not_covers (by decide)
    rw [bootPmp_allows]
    simp [hnot, h]
  counter := by
    intro a h
    have hnot : ¬ bootromRegion.Covers a := h.not_covers (by decide)
    rw [bootPmp_allows]
    simp [hnot, h]
  bootromStore := by
    intro a hstore h
    rw [bootPmp_allows, if_pos h, hstore]
    exact Bool.and_false _
  bootromRead := by
    intro a hread h
    rw [bootPmp_allows, if_pos h.touches]
    simp [h, hread]
  elsewhere := by
    intro a hbelow h₀ h₁ h₂
    have hall : allRegion.Covers a := ⟨Nat.zero_le _, hbelow⟩
    rw [bootPmp_allows, if_neg h₀, if_neg fun h => h.elim h₁ h₂, if_pos hall.touches]
    simpa using hall

/-- On any platform `lock_pmp` returns, with these values in the CSRs. -/
theorem lockPmp_pmp {δ : Type} (p : Platform δ) (s : Machine δ) :
    ∃ s', lockPmp p s = .ok () s' ∧ s'.pmp = lockedPmp s.pmp :=
  ⟨_, rfl, rfl⟩

/-- Started with every entry OFF and unlocked, `lock_pmp` isolates the root of trust, for good. -/
theorem lockPmp_isolates {δ : Type} (p : Platform δ) (s : Machine δ) (hoff : s.pmp.Off) :
    ∃ s', lockPmp p s = .ok () s' ∧
      ∀ writes : List (Mode × CsrWrite),
        writes.foldl Pmp.csrWrite s'.pmp = s'.pmp ∧
          Isolated (writes.foldl Pmp.csrWrite s'.pmp) := by
  rcases lockPmp_pmp p s with ⟨s', hok, hpmp⟩
  refine ⟨s', hok, fun writes => ?_⟩
  have hsame : writes.foldl Pmp.csrWrite s'.pmp = s'.pmp := by
    rw [hpmp]
    exact csrWrites_locked (lockedPmp_locked _) writes
  refine ⟨hsame, ?_⟩
  rw [hsame, hpmp, lockedPmp_off hoff]
  exact bootPmp_isolated _

/-- Permissions and addresses of earlier software, with nothing switched on. -/
def Pmp.stale : Pmp := ⟨Vector.replicate 16 0x07, Vector.replicate 16 0x2003FFFF⟩

theorem stale_isolates :
    ∃ s', lockPmp selfLoop.chip.platform { Image.atReset (fun _ => 0) 0 with pmp := .stale } =
        .ok () s' ∧ Isolated s'.pmp := by
  obtain ⟨s', hok, hwrites⟩ := lockPmp_isolates selfLoop.chip.platform
    { Image.atReset (fun _ => 0) 0 with pmp := .stale } (by decide)
  exact ⟨s', hok, (hwrites []).2⟩

/-! ## The regions of `make_napot` -/

section Napot

variable {j : Nat} {base size : DWord} (hsize : size.toNat = 2 ^ (j + 3))
  (hbase : 2 ^ (j + 3) ∣ base.toNat)
include hsize

/-- The ones that the size contributes. -/
theorem napotMask_toNat : ((size - 1) >>> 3).toNat = 2 ^ j - 1 := by
  have hpos : 0 < 2 ^ j := Nat.two_pow_pos j
  have hle : (1 : DWord) ≤ size := by
    rw [BitVec.le_def, hsize]
    exact Nat.two_pow_pos _
  have hone : (1 : DWord).toNat = 1 := rfl
  have height : 2 ^ (j + 3) = 2 ^ j * 8 := Nat.pow_add 2 j 3
  rw [BitVec.toNat_ushiftRight, BitVec.toNat_sub_of_le hle, hone, hsize,
    Nat.shiftRight_eq_div_pow]
  omega

include hbase

/-- The shifted base leaves free the ones and the zero above them. -/
theorem makeNapot_toNat :
    (makeNapot base size).toNat = base.toNat / 2 ^ (j + 3) * 2 ^ (j + 1) + (2 ^ j - 1) := by
  have hmask : 2 ^ j - 1 < 2 ^ (j + 1) := by
    have hpos : 0 < 2 ^ j := Nat.two_pow_pos j
    rw [Nat.pow_succ]
    omega
  have hwhole : base.toNat / 2 ^ (j + 3) * 2 ^ (j + 3) = base.toNat := Nat.div_mul_cancel hbase
  have hshift : (base >>> 2).toNat = 2 ^ (j + 1) * (base.toNat / 2 ^ (j + 3)) := by
    rw [BitVec.toNat_ushiftRight, Nat.shiftRight_eq_div_pow, Nat.mul_comm]
    refine Nat.div_eq_of_eq_mul_left (by omega) ?_
    rw [Nat.mul_assoc, ← Nat.pow_add]
    exact hwhole.symm
  rw [makeNapot, BitVec.toNat_or, hshift, napotMask_toNat hsize,
    ← Nat.two_pow_add_eq_or_of_lt hmask, Nat.mul_comm]

/-- Read in NAPOT mode the register gives the region asked for. -/
theorem napotRegion_makeNapot (hj : j ≤ 51) (hfit : base.toNat + 2 ^ (j + 3) ≤ 2 ^ 56) :
    napotRegion ((makeNapot base size).toNat % 2 ^ 54) =
      ⟨base.toNat, base.toNat + 2 ^ (j + 3)⟩ := by
  have hwhole : base.toNat / 2 ^ (j + 3) * 2 ^ (j + 3) = base.toNat := Nat.div_mul_cancel hbase
  have hregister : (makeNapot base size).toNat < 2 ^ 54 := by
    have hquarter : base.toNat / 2 ^ (j + 3) * 2 ^ (j + 1) * 4 = base.toNat := by
      rw [Nat.mul_assoc, show 4 = 2 ^ 2 by rfl, ← Nat.pow_add]
      exact hwhole
    have height : 2 ^ (j + 3) = 2 ^ j * 8 := Nat.pow_add 2 j 3
    have hpos : 0 < 2 ^ j := Nat.two_pow_pos j
    rw [makeNapot_toNat hsize hbase]
    omega
  rw [Nat.mod_eq_of_lt hregister, makeNapot_toNat hsize hbase, napotRegion_encode j _ (by omega),
    Nat.succ_mul, hwhole]

end Napot

/-- `make_napot` encodes exactly the region: the addresses an entry in NAPOT mode matches. -/
theorem makeNapot_contains {k : Nat} (hk : 3 ≤ k) (hk' : k ≤ 54) {base size : DWord}
    (hsize : size.toNat = 2 ^ k) (hbase : 2 ^ k ∣ base.toNat)
    (hfit : base.toNat + 2 ^ k ≤ 2 ^ 56) {cfg : Byte} (hnapot : cfg.extractLsb' 3 2 = 3)
    (below x : Nat) :
    (Entry.region ⟨cfg, (makeNapot base size).toNat % 2 ^ 54⟩ below).Contains x ↔
      base.toNat ≤ x ∧ x < base.toNat + 2 ^ k := by
  obtain ⟨j, rfl⟩ : ∃ j, k = j + 3 := ⟨k - 3, by omega⟩
  rw [Entry.region, hnapot]
  show (napotRegion _).Contains x ↔ _
  rw [napotRegion_makeNapot hsize hbase (by omega) hfit]
  exact Iff.rfl

theorem makeNapot_contains_bootrom :
    (Entry.region ⟨0x9D, (makeNapot BOOTROM_BASE BOOTROM_SIZE).toNat % 2 ^ 54⟩ 0).Contains
        0x1FFFF ↔
      0x10000 ≤ 0x1FFFF ∧ 0x1FFFF < 0x10000 + 2 ^ 16 :=
  makeNapot_contains (by omega) (by omega) rfl ⟨1, rfl⟩ (by decide) rfl 0 0x1FFFF

end SecureBoot.Bootrom
