import SecureBoot.Base.Words

/-!
# The SPI master

`SPIMasterCore` of `spi_flash.scala`. The outputs are registers or functions of
the registers, so a step needs the inputs of the cycle only.
-/

namespace SecureBoot.Spi

inductive MasterState where
  | sIdle
  | sSendSetup
  | sSendRise
  | sReadSetup
  | sReadWait
  | sReadRise
  | sEmit
  | sDone
deriving DecidableEq, Repr

structure Master where
  state : MasterState
  txShift : BitVec 32
  txBitsLeft : Nat
  rxByte : BitVec 8
  rxBitCount : Nat
  bytesRemaining : Nat
  wordReg : Word
  wordByteCount : Nat
  emitWord : Word
  sclkReg : Bool
  mosiReg : Bool
  csReg : Bool
  doneReg : Bool
  errorReg : Bool
deriving DecidableEq, Repr

structure MasterIn where
  start : Bool
  address : BitVec 24
  lengthBytes : Word
  dataReady : Bool
  miso : Bool

namespace Master

def reset : Master where
  state := .sIdle
  txShift := 0
  txBitsLeft := 0
  rxByte := 0
  rxBitCount := 0
  bytesRemaining := 0
  wordReg := 0
  wordByteCount := 0
  emitWord := 0
  sclkReg := false
  mosiReg := false
  csReg := true
  doneReg := false
  errorReg := false

/-! ## Outputs -/

def dataValid (m : Master) : Bool := m.state = .sEmit

def busy (m : Master) : Bool := m.state ≠ .sIdle && m.state ≠ .sDone

/-! ## The clock edge -/

/-- `is(sIdle)` -/
def idle (i : MasterIn) (m : Master) : Master :=
  let m := { m with csReg := true, sclkReg := false, mosiReg := false, errorReg := false }
  if i.start then
    if i.lengthBytes = 0 then { m with doneReg := true, state := .sDone }
    else
      { m with
        csReg := false
        txShift := 0x03#8 ++ i.address
        txBitsLeft := 32
        rxByte := 0
        rxBitCount := 0
        bytesRemaining := i.lengthBytes.toNat
        wordReg := 0
        wordByteCount := 0
        state := .sSendSetup }
  else m

/-- `when(rxBitCount === 7.U)` of `is(sReadRise)`: a byte is complete. -/
def takeByte (nextByte : BitVec 8) (m : Master) : Master :=
  let nextWord := m.wordReg ||| (nextByte.setWidth 32 <<< (8 * m.wordByteCount))
  let lastByte := m.bytesRemaining = 1
  let m :=
    { m with
      emitWord := nextWord
      bytesRemaining := m.bytesRemaining - 1
      rxByte := 0
      rxBitCount := 0 }
  if m.wordByteCount = 3 ∨ lastByte then
    { m with wordReg := 0, wordByteCount := 0, state := .sEmit }
  else
    { m with wordReg := nextWord, wordByteCount := m.wordByteCount + 1, state := .sReadSetup }

/-- `is(sReadRise)` -/
def readRise (miso : Bool) (m : Master) : Master :=
  let nextByte := m.rxByte.shiftConcat miso
  if m.rxBitCount = 7 then takeByte nextByte { m with sclkReg := true }
  else
    { m with
      sclkReg := true, rxByte := nextByte, rxBitCount := m.rxBitCount + 1, state := .sReadSetup }

/-- `is(sEmit)` -/
def emit (dataReady : Bool) (m : Master) : Master :=
  if dataReady then
    if m.bytesRemaining = 0 then
      { m with sclkReg := false, csReg := true, doneReg := true, state := .sDone }
    else { m with sclkReg := false, state := .sReadSetup }
  else { m with sclkReg := false }

def step (i : MasterIn) (m : Master) : Master :=
  match m.state with
  | .sIdle => idle i { m with doneReg := false }
  | .sSendSetup =>
      { m with
        doneReg := false, sclkReg := false, mosiReg := m.txShift.getLsbD 31, state := .sSendRise }
  | .sSendRise =>
      { m with
        doneReg := false
        sclkReg := true
        txShift := m.txShift.shiftConcat false
        txBitsLeft := m.txBitsLeft - 1
        state := if m.txBitsLeft = 1 then .sReadSetup else .sSendSetup }
  | .sReadSetup =>
      { m with doneReg := false, sclkReg := false, mosiReg := false, state := .sReadWait }
  | .sReadWait =>
      { m with doneReg := false, sclkReg := false, mosiReg := false, state := .sReadRise }
  | .sReadRise => readRise i.miso { m with doneReg := false }
  | .sEmit => emit i.dataReady { m with doneReg := false }
  | .sDone =>
      { m with csReg := true, sclkReg := false, state := if i.start then .sDone else .sIdle }

end Master

end SecureBoot.Spi
