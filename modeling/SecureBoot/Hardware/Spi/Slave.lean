import SecureBoot.Base.Words

/-!
# The SPI flash

`SPIFlashSlave` of `spi_flash.scala`, with one step for each clock edge. The
pins it samples are the registers of the master from before the edge.
-/

namespace SecureBoot.Spi

/-- `FlashStorage`: a power of two bytes, addressed with the low bits of the flash address. -/
structure Storage where
  addrWidth : Nat
  positive : 1 ≤ addrWidth
  fits : addrWidth ≤ 24
  mem : Nat → Byte

namespace Storage

variable (f : Storage)

def depthBytes : Nat := 2 ^ f.addrWidth

/-- The combinational read port. -/
def data (addr : BitVec 24) : Byte := f.mem (addr.toNat % f.depthBytes)

/-- What a READ from `address` streams, byte by byte. -/
def byte (address : BitVec 24) (i : Nat) : Byte := f.mem ((address.toNat + i) % f.depthBytes)

end Storage

inductive SlaveState where
  | sIdle
  | sCommand
  | sAddress
  | sData
  | sIgnore
deriving DecidableEq, Repr

structure Slave where
  state : SlaveState
  sclkPrev : Bool
  commandReg : BitVec 8
  commandBits : Nat
  addressReg : BitVec 24
  addressBits : Nat
  outputReg : BitVec 8
  outputBits : Nat
  outputLoaded : Bool
  misoReg : Bool
deriving DecidableEq, Repr

namespace Slave

variable (f : Storage)

def nextAddress (addr : BitVec 24) : BitVec 24 :=
  if addr.toNat = f.depthBytes - 1 then 0 else addr + 1

/-- The registers while `cs_n` is high, and out of reset. -/
def deselected (sclkPrev : Bool) : Slave where
  state := .sIdle
  sclkPrev := sclkPrev
  commandReg := 0
  commandBits := 0
  addressReg := 0
  addressBits := 0
  outputReg := 0
  outputBits := 0
  outputLoaded := false
  misoReg := false

/-- `is(sCommand)` on a rising edge. -/
def shiftCommand (mosi : Bool) (s : Slave) : Slave :=
  let nextCommand := s.commandReg.shiftConcat mosi
  if s.commandBits = 7 then
    { s with
      commandReg := nextCommand
      commandBits := 0
      state := if nextCommand = 0x03 then .sAddress else .sIgnore }
  else { s with commandReg := nextCommand, commandBits := s.commandBits + 1 }

/-- `is(sAddress)` on a rising edge. -/
def shiftAddress (mosi : Bool) (s : Slave) : Slave :=
  let nextAddr := s.addressReg.shiftConcat mosi
  if s.addressBits = 23 then
    { s with
      addressReg := nextAddr
      addressBits := 0
      outputReg := f.data nextAddr
      outputBits := 0
      outputLoaded := false
      state := .sData }
  else { s with addressReg := nextAddr, addressBits := s.addressBits + 1 }

/-- `is(sData)` on a falling edge. -/
def shiftData (s : Slave) : Slave :=
  if s.outputLoaded = false then { s with misoReg := s.outputReg.getLsbD 7, outputLoaded := true }
  else if s.outputBits = 7 then
    { s with
      addressReg := nextAddress f s.addressReg
      outputReg := f.data (nextAddress f s.addressReg)
      misoReg := (f.data (nextAddress f s.addressReg)).getLsbD 7
      outputBits := 0 }
  else
    { s with
      outputReg := s.outputReg.shiftConcat false
      misoReg := s.outputReg.getLsbD 6
      outputBits := s.outputBits + 1 }

def step (cs_n sclk mosi : Bool) (s : Slave) : Slave :=
  let risingEdge := !s.sclkPrev && sclk
  let fallingEdge := s.sclkPrev && !sclk
  if cs_n then deselected sclk
  else
    match s.state with
    | .sIdle => { s with state := .sCommand, sclkPrev := sclk }
    | .sCommand => { if risingEdge then shiftCommand mosi s else s with sclkPrev := sclk }
    | .sAddress => { if risingEdge then shiftAddress f mosi s else s with sclkPrev := sclk }
    | .sData => { if fallingEdge then shiftData f s else s with sclkPrev := sclk }
    | .sIgnore => { s with misoReg := false, sclkPrev := sclk }

/-- The pin: high impedance reads as zero. -/
def miso (cs_n : Bool) (s : Slave) : Bool := if cs_n then false else s.misoReg

/-! ## Addresses -/

/-- The address register after `i` bytes. -/
def addressAfter (address : BitVec 24) : Nat → BitVec 24
  | 0 => address
  | i + 1 => nextAddress f (addressAfter address i)

theorem nextAddress_mod (addr : BitVec 24) :
    (nextAddress f addr).toNat % f.depthBytes = (addr.toNat + 1) % f.depthBytes := by
  have hpos : 0 < f.depthBytes := Nat.two_pow_pos _
  unfold nextAddress
  by_cases h : addr.toNat = f.depthBytes - 1
  · rw [if_pos h, h, Nat.sub_add_cancel hpos, Nat.mod_self]
    exact Nat.zero_mod _
  · rw [if_neg h, BitVec.toNat_add]
    exact Nat.mod_mod_of_dvd _ (Nat.pow_dvd_pow 2 f.fits)

theorem data_addressAfter (address : BitVec 24) (i : Nat) :
    f.data (addressAfter f address i) = f.byte address i := by
  have h : (addressAfter f address i).toNat % f.depthBytes =
      (address.toNat + i) % f.depthBytes := by
    induction i with
    | zero => rfl
    | succ i ih =>
        rw [addressAfter, nextAddress_mod, Nat.add_mod, ih, ← Nat.add_mod, Nat.add_assoc]
  rw [Storage.data, Storage.byte, h]

/-! ## Receiving the command -/

/-- Bit `k` of the 32 that the master sends. -/
def txBit (address : BitVec 24) (k : Nat) : Bool := (0x03#8 ++ address).getLsbD (31 - k)

/-- The registers after `k < 32` bits. -/
def received (address : BitVec 24) (k : Nat) (sclkPrev : Bool) : Slave :=
  if k < 8 then
    { deselected sclkPrev with
      state := .sCommand
      commandReg := 0x03#8 >>> (8 - k)
      commandBits := k }
  else
    { deselected sclkPrev with
      state := .sAddress
      commandReg := 0x03
      addressReg := address >>> (32 - k)
      addressBits := k - 8 }

/-- A shift register fed most significant bit first. -/
theorem shiftConcat_ushiftRight {w : Nat} (x : BitVec w) (j : Nat) (hj : j < w) :
    (x >>> (w - j)).shiftConcat (x.getLsbD (w - 1 - j)) = x >>> (w - (j + 1)) := by
  apply BitVec.eq_of_getLsbD_eq
  intro i hi
  rw [BitVec.getLsbD_shiftConcat, BitVec.getLsbD_ushiftRight, BitVec.getLsbD_ushiftRight]
  by_cases h : i = 0
  · subst h
    rw [if_pos rfl, show w - (j + 1) + 0 = w - 1 - j by omega]
    simp [hi]
  · rw [if_neg h, show w - j + (i - 1) = w - (j + 1) + i by omega]
    simp [hi]

/-- A shift register read most significant bit first. -/
theorem shiftLeft_shiftConcat {w : Nat} (x : BitVec w) (r : Nat) :
    (x <<< r).shiftConcat false = x <<< (r + 1) := by
  apply BitVec.eq_of_getLsbD_eq
  intro i hi
  rw [BitVec.getLsbD_shiftConcat, BitVec.getLsbD_shiftLeft, BitVec.getLsbD_shiftLeft]
  by_cases h : i = 0
  · subst h
    simp
  · rw [if_neg h, show i - 1 - r = i - (r + 1) by omega]
    have hlt : i - 1 < r ↔ i < r + 1 := by omega
    simp only [hlt, hi, show i - 1 < w by omega, decide_true, Bool.true_and]

theorem getLsbD_shiftLeft_six (x : BitVec 8) (r : Nat) (hr : r < 7) :
    (x <<< r).getLsbD 6 = x.getLsbD (7 - (r + 1)) := by
  have hge : ¬ 6 < r := by omega
  rw [BitVec.getLsbD_shiftLeft, show 6 - r = 7 - (r + 1) by omega]
  simp only [hge, decide_false, Bool.not_false, Bool.and_true]
  simp

theorem txBit_command (address : BitVec 24) (k : Nat) (hk : k < 8) :
    txBit address k = (0x03#8).getLsbD (7 - k) := by
  rw [txBit, BitVec.getLsbD_append, if_neg (by omega)]
  congr 1
  omega

theorem txBit_address (address : BitVec 24) (k : Nat) (hk : 8 ≤ k) :
    txBit address k = address.getLsbD (31 - k) := by
  rw [txBit, BitVec.getLsbD_append, if_pos (by omega)]

theorem step_select (address : BitVec 24) (sclkPrev sclk mosi : Bool) :
    (deselected sclkPrev).step f false sclk mosi = received address 0 sclk := rfl

theorem step_low (address : BitVec 24) (k : Nat) (sclkPrev mosi : Bool) :
    (received address k sclkPrev).step f false false mosi = received address k false := by
  unfold received
  by_cases h : k < 8
  · simp [step, h, deselected]
  · simp [step, h, deselected]

theorem step_rise (address : BitVec 24) (k : Nat) (hk : k < 31) :
    (received address k false).step f false true (txBit address k) =
      received address (k + 1) true := by
  by_cases hcommand : k < 8
  · have hshift := shiftConcat_ushiftRight 0x03#8 k hcommand
    rw [show 8 - 1 - k = 7 - k by omega, ← txBit_command address k hcommand] at hshift
    by_cases hlast : k = 7
    · subst hlast
      have hread : (0x01#8).shiftConcat (txBit address 7) = 0x03#8 := hshift
      have hempty : address >>> 24 = 0#24 := BitVec.ushiftRight_eq_zero (by decide)
      simp [step, received, deselected, shiftCommand, hread, hempty]
    · simp [step, received, deselected, shiftCommand, hcommand, hlast, hshift,
        show k + 1 < 8 by omega]
  · have hshift := shiftConcat_ushiftRight address (k - 8) (by omega)
    rw [show 24 - 1 - (k - 8) = 31 - k by omega, ← txBit_address address k (by omega),
      show 24 - (k - 8) = 32 - k by omega, show 24 - (k - 8 + 1) = 32 - (k + 1) by omega] at hshift
    simp [step, received, deselected, shiftAddress, hcommand, hshift, show ¬ k + 1 < 8 by omega,
      show ¬ k - 8 = 23 by omega, show k - 8 + 1 = k + 1 - 8 by omega]

/-! ## Streaming -/

/-- The registers `falls` falling edges after the last address bit. -/
def streaming (address : BitVec 24) (falls : Nat) (sclkPrev : Bool) : Slave where
  state := .sData
  sclkPrev := sclkPrev
  commandReg := 0x03
  commandBits := 0
  addressReg := addressAfter f address ((falls - 1) / 8)
  addressBits := 0
  outputReg := f.byte address ((falls - 1) / 8) <<< ((falls - 1) % 8)
  outputBits := (falls - 1) % 8
  outputLoaded := decide (0 < falls)
  misoReg := decide (0 < falls) && (f.byte address ((falls - 1) / 8)).getLsbD (7 - (falls - 1) % 8)

theorem step_lastRise (address : BitVec 24) :
    (received address 31 false).step f false true (txBit address 31) =
      streaming f address 0 true := by
  have hshift := shiftConcat_ushiftRight address 23 (by decide)
  rw [show 24 - 1 - 23 = 31 - 31 by omega, ← txBit_address address 31 (by omega)] at hshift
  have hbyte := data_addressAfter f address 0
  simp [addressAfter] at hbyte
  simp [step, received, deselected, shiftAddress, streaming, hshift, hbyte, addressAfter]

theorem shiftData_streaming (address : BitVec 24) (falls : Nat) (sclkPrev : Bool) :
    shiftData f (streaming f address falls sclkPrev) =
      streaming f address (falls + 1) sclkPrev := by
  by_cases h₀ : falls = 0
  · subst h₀
    simp [shiftData, streaming]
  · have hpos : 0 < falls := by omega
    by_cases h₇ : (falls - 1) % 8 = 7
    · have hdiv : falls / 8 = (falls - 1) / 8 + 1 := by omega
      have hmod : falls % 8 = 0 := by omega
      have hdata := data_addressAfter f address ((falls - 1) / 8 + 1)
      rw [addressAfter] at hdata
      simp [shiftData, streaming, hpos, h₇, hdiv, hmod, hdata, addressAfter]
    · have hdiv : falls / 8 = (falls - 1) / 8 := by omega
      have hmod : falls % 8 = (falls - 1) % 8 + 1 := by omega
      have hmiso := getLsbD_shiftLeft_six (f.byte address ((falls - 1) / 8)) ((falls - 1) % 8)
        (by omega)
      have hpos' : 0 < falls + 1 := by omega
      simp only [shiftData, streaming, hpos, decide_true, Bool.true_eq_false, if_false, h₇,
        Nat.add_sub_cancel, hdiv, hmod, shiftLeft_shiftConcat, hmiso, hpos', Bool.true_and]

/-- In `sData` rising edges do nothing, and each falling edge brings the next bit to the pin. -/
theorem step_streaming (address : BitVec 24) (falls : Nat) (sclkPrev sclk mosi : Bool) :
    (streaming f address falls sclkPrev).step f false sclk mosi =
      streaming f address (if sclkPrev && !sclk then falls + 1 else falls) sclk := by
  cases hedge : sclkPrev && !sclk with
  | true =>
      have hshift := shiftData_streaming f address falls sclkPrev
      have hstep : (streaming f address falls sclkPrev).step f false sclk mosi =
          { shiftData f (streaming f address falls sclkPrev) with sclkPrev := sclk } := by
        simp [step, streaming, hedge]
      rw [hstep, hshift]
      rfl
  | false =>
      simp [step, streaming, hedge]

theorem miso_streaming (address : BitVec 24) (m : Nat) (sclkPrev : Bool) :
    (streaming f address (m + 1) sclkPrev).miso false =
      (f.byte address (m / 8)).getLsbD (7 - m % 8) := by
  simp [miso, streaming]

end Slave

end SecureBoot.Spi
