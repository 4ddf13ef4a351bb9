import SecureBoot.Hardware.Ed25519
import SecureBoot.Hardware.Registers
import SecureBoot.Bootrom.Flash
import SecureBoot.Bootrom.Frame

/-!
# The system on chip

The peripherals at their windows on the bus. The SPI register block is a
parameter, so that one statement covers the real block and every flash that
answers differently on each read; the OTP hash, the rollback counter, the
status register and the Ed25519 block are the modelled ones.
-/

namespace SecureBoot

open Bootrom

/-- The state of the peripherals. -/
structure Devices (σ : Type) where
  spi : σ
  ed25519 : Ed25519.Verifier
  counter : DWord
  status : Word

structure Soc (σ : Type) where
  port : SpiPort σ
  otpHash : Vector Byte 32
  script : Ed25519.Files → Bool
  hartid : DWord
  frames : Frames (Devices σ)
  /-- Byte accesses to a window are up to the bus: the register router decides. -/
  read8 : Nat → Devices σ → Byte × Devices σ
  write8 : Nat → Byte → Devices σ → Devices σ

/-- DRAM is `[0x80000000, 0x90000000)`. -/
def inDram (a : Nat) : Bool := 0x80000000 ≤ a && a < 0x90000000

def inWindow (base size a : Nat) : Bool := base ≤ a && a < base + size

theorem inWindow_iff (base size a : Nat) :
    inWindow base size a = true ↔ base ≤ a ∧ a < base + size := by
  rw [inWindow, Bool.and_eq_true, decide_eq_true_eq, decide_eq_true_eq]

/-- The five windows. -/
def inWindows (a : Nat) : Bool :=
  inWindow OTP_BASE 0x40 a || inWindow ROLLBACK_COUNTER_BASE 0x40 a || inWindow SPI_BASE 0x1000 a ||
    inWindow BOOT_STATUS_REG 0x40 a || inWindow ED25519_VERIFY_BASE 0x40 a

namespace Soc

variable {σ : Type} (soc : Soc σ)

def read32 (a : Nat) (d : Devices σ) : Word × Devices σ :=
  if inWindow SPI_BASE 0x1000 a then
    ((soc.port.read (a - SPI_BASE) d.spi).1,
      { d with spi := (soc.port.read (a - SPI_BASE) d.spi).2 })
  else if inWindow OTP_BASE 0x40 a then (Otp.read soc.otpHash.toList (a - OTP_BASE), d)
  else if a = BOOT_STATUS_REG then (d.status, d)
  else if a = ED25519_STATUS then (d.ed25519.status, d)
  else if a = ED25519_VERIFY_BASE + 0x08 then (d.ed25519.count, d)
  else (0, d)

def write32 (a : Nat) (value : Word) (d : Devices σ) : Devices σ :=
  if inWindow SPI_BASE 0x1000 a then
    { d with spi := soc.port.write (a - SPI_BASE) value d.spi }
  else if a = BOOT_STATUS_REG then { d with status := value }
  else if a = ED25519_CMD then
    { d with ed25519 := Ed25519.step soc.script d.ed25519 (.cmd value) }
  else if a = ED25519_DATA then
    { d with ed25519 := Ed25519.step soc.script d.ed25519 (.data value) }
  else d

/-- The counter is the only 64-bit register. -/
def read64 (a : Nat) (d : Devices σ) : DWord × Devices σ :=
  if a = ROLLBACK_COUNTER_BASE then (d.counter, d) else (0, d)

def write64 (a : Nat) (value : DWord) (d : Devices σ) : Devices σ :=
  if a = ROLLBACK_COUNTER_BASE then { d with counter := RollbackCounter.write d.counter value }
  else d

def platform : Platform (Devices σ) where
  ram := inDram
  mmio := inWindows
  read8 := soc.read8
  write8 := soc.write8
  read32 := soc.read32
  write32 := soc.write32
  read64 := read64
  write64 := write64
  hartid := soc.hartid
  frames := soc.frames

/-! ## The registers BootROM uses -/

theorem inDram_iff (a : Nat) : inDram a = true ↔ 0x80000000 ≤ a ∧ a < 0x90000000 := by
  rw [inDram, Bool.and_eq_true, decide_eq_true_eq, decide_eq_true_eq]

theorem ramRange (a n : Nat) (h : 0x80000000 ≤ a) (hn : a + n ≤ 0x90000000) :
    soc.platform.RamRange a n := by
  intro x hx hxn
  exact (inDram_iff x).mpr (by omega)

/-- BootROM's own buffers and stack. -/
theorem bufferRam (a n : Nat)
    (h : BOOT_SCRATCH_BASE ≤ a ∧ a + n ≤ BOOT_SCRATCH_BASE + 0x10000 := by decide) :
    soc.platform.RamRange a n :=
  soc.ramRange a n (Nat.le_trans (by decide) h.1) (Nat.le_trans h.2 (by decide))

theorem scratchRam : soc.platform.RamRange BOOT_SCRATCH_BASE 0x10000 := soc.bufferRam _ _

@[simp] theorem write64_counter (value : DWord) (d : Devices σ) :
    soc.platform.write64 ROLLBACK_COUNTER_BASE value d =
      { d with counter := RollbackCounter.write d.counter value } := rfl

theorem embeds (d : Devices σ) :
    SpiPort.Embeds soc.port soc.platform.spiPort fun q => { d with spi := q } := by
  have hwin : ∀ a, a < 0x1000 → inWindow SPI_BASE 0x1000 (SPI_BASE + a) = true := by
    intro a ha
    rw [inWindow_iff]
    omega
  have hoff : ∀ a, SPI_BASE + a - SPI_BASE = a := fun a => Nat.add_sub_cancel_left ..
  constructor
  · intro a q ha
    show soc.read32 (SPI_BASE + a) _ = _
    rw [read32, if_pos (hwin a ha), hoff]
  · intro a value q ha
    show soc.write32 (SPI_BASE + a) value _ = _
    rw [write32, if_pos (hwin a ha), hoff]

/-- Everything but the SPI block. -/
def others (d : Devices σ) : Ed25519.Verifier × DWord × Word := (d.ed25519, d.counter, d.status)

/-- The registers that outlive a boot. -/
def registers (d : Devices σ) : DWord × Word := (d.counter, d.status)

theorem spiUnseen_others : SpiUnseen soc.platform others := by
  have hwin : ∀ a, SPI_BASE ≤ a → a < SPI_BASE + 0x14 → inWindow SPI_BASE 0x1000 a = true := by
    intro a h₁ h₂
    rw [inWindow_iff]
    omega
  refine { status := fun d => rfl, data := fun d => rfl, write := ?_ }
  intro a h₁ h₂ value d
  show others (soc.write32 a value d) = others d
  rw [write32, if_pos (hwin a h₁ h₂)]
  rfl

theorem spiUnseen_unit : SpiUnseen soc.platform fun _ => () :=
  { status := fun _ => rfl, data := fun _ => rfl, write := fun _ _ _ _ _ => rfl }

/-- A DRAM buffer reaches no peripheral. -/
theorem unseen_of_ramRange {ω : Type} {obs : Devices σ → ω} {a n : Nat}
    (h : soc.platform.RamRange a n) : Unseen soc.platform obs a n := by
  intro x hx hram
  rw [h x hx.1 hx.2] at hram
  exact absurd hram (by decide)

theorem unmapped_of_ramRange {a n x : Nat} (h : soc.platform.RamRange a n) :
    ¬ Unmapped soc.platform a n x := by
  intro h
  rcases h with ⟨⟨h₁, h₂⟩, hun⟩
  rw [Platform.mapped, h x h₁ h₂, Bool.true_or] at hun
  exact absurd hun (by decide)

end Soc

end SecureBoot
