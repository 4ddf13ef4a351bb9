import SecureBoot.Bootrom.Platform

/-!
# `bootrom.c`

Function by function, with the loops as recursion over what they count. The
two instructions that leave BootROM, `mret` in `enter_recovery` and in
`jump_to_kernel`, end the run.
-/

namespace SecureBoot.Bootrom

open Words

/-! ## Constants -/

def ED25519_VERIFY_BASE : Nat := 0xF0004000
def ED25519_CMD : Nat := ED25519_VERIFY_BASE + 0x00
def ED25519_STATUS : Nat := ED25519_VERIFY_BASE + 0x04
def ED25519_DATA : Nat := ED25519_VERIFY_BASE + 0x0c
def ED25519_CMD_CLEAR : Word := 0x1
def ED25519_CMD_START : Word := 0x2
def ED25519_DONE : Word := 1 <<< 1
def ED25519_PASS : Word := 1 <<< 2
def ED25519_ERROR : Word := 1 <<< 3

def SPI_BASE : Nat := 0xF0002000
def SPI_ADDR : Nat := SPI_BASE + 0x00
def SPI_LEN : Nat := SPI_BASE + 0x04
def SPI_COMMAND : Nat := SPI_BASE + 0x08
def SPI_STATUS : Nat := SPI_BASE + 0x0C
def SPI_DATA : Nat := SPI_BASE + 0x10
def SPI_START_READ : Word := 0x1
def SPI_CLEAR_DONE : Word := 0x2
def SPI_DONE : Word := 1 <<< 1
def SPI_ERROR : Word := 1 <<< 2
def SPI_DATA_READY : Word := 1 <<< 3

def OTP_BASE : Nat := 0xF0000000
def OTP_HASH_SIZE : Nat := 32
def ROLLBACK_COUNTER_BASE : Nat := 0xF0001000

def BOOT_STATUS_REG : Nat := 0xF0003000
def SR_MANIFEST_HEADER : Word := 1 <<< 0
def SR_PUBLIC_KEY : Word := 1 <<< 1
def SR_MANIFEST_SIGNATURE : Word := 1 <<< 2
def SR_LOAD_KERNEL : Word := 1 <<< 3
def SR_ROLLBACK_COUNTER : Word := 1 <<< 4
def SR_LOCK_PMP : Word := 1 <<< 5

def MANIFEST_OFFSET : Word := 0x00000
def SIGNATURE_OFFSET : Word := 0x00060
def PUBLIC_KEY_OFFSET : Word := 0x000A0
def KERNEL_OFFSET : Word := 0x000C0
def MANIFEST_SIZE : Word := 96
def SIGNATURE_SIZE : Word := 64
def PUBLIC_KEY_SIZE : Word := 32
def MANIFEST_MAGIC : Word := 0x54424F53
def MANIFEST_HEADER_VERSION : BitVec 16 := 1

def BOOTROM_BASE : DWord := 0x10000
def BOOTROM_SIZE : DWord := 0x10000
def OTP_SIZE : DWord := 0x20
def ROLLBACK_COUNTER_SIZE : DWord := 0x8
def DRAM_BASE : Nat := 0x80000000
def RECOVERY_ENTRY : Nat := 0x80100000

def BOOT_SCRATCH_BASE : Nat := 0x88000000
def MANIFEST_BUFFER : Nat := BOOT_SCRATCH_BASE + 0x0000
def SIGNATURE_BUFFER : Nat := BOOT_SCRATCH_BASE + 0x0100
def PUBLIC_KEY_BUFFER : Nat := BOOT_SCRATCH_BASE + 0x0200
def PUBLIC_KEY_HASH : Nat := BOOT_SCRATCH_BASE + 0x0300
def OTP_HASH_BUFFER : Nat := BOOT_SCRATCH_BASE + 0x0340
def KERNEL_HASH_BUFFER : Nat := BOOT_SCRATCH_BASE + 0x0380
def KERNEL_CHUNK : Nat := BOOT_SCRATCH_BASE + 0x0400
def KERNEL_CHUNK_SIZE : Nat := 512
def SHA256_DIGEST_SIZE : Nat := 32
def MAX_SPIN : Nat := 10000000

def PMP_LOCK_NAPOT_NO_ACCESS : DWord := 0x98
def PMP_LOCK_NAPOT_RX : DWord := 0x9D
def PMP_LOCK_NAPOT_RWX : DWord := 0x9F
def PMP_LOCK_OFF : DWord := 0x80

/-! Link addresses, from `bootrom.dump`. -/

def START : Nat := 0x10040
def MRET_TRAP_EXIT : Nat := 0x102b4
/-- `sha256_hash` and what it calls use the stack from here, … -/
def FRAME_BASE : Nat := 0x8800FDC0
/-- … its `sha256_ctx` object begins here, … -/
def CTX_BASE : Nat := 0x8800FF50
/-- … and here the frame of `bootrom_main` begins, which is never restored. -/
def FRAME_TOP : Nat := 0x8800FFE0

/-! Offsets of `manifest_t`. -/

def MAGIC : Nat := 0
def HEADER_VERSION : Nat := 4
def VERSION : Nat := 8
def PAYLOAD_SIZE : Nat := 12
def LOAD_ADDRESS : Nat := 16
def ENTRY_POINT : Nat := 20
def PAYLOAD_HASH : Nat := 32

variable {δ : Type} (p : Platform δ)

/-! ## Recovery -/

def setStatus (bit : Word) : Boot δ Unit := do
  let cur ← readRegister p BOOT_STATUS_REG
  writeRegister p BOOT_STATUS_REG (cur ||| bit)

def enterRecovery {α : Type} (reason : Word) : Boot δ α := do
  setStatus p reason
  modify fun s =>
    { s with mtvec := MRET_TRAP_EXIT, mepc := RECOVERY_ENTRY, a0 := p.hartid, a1 := 0 }
  throw .recovery

/-- `if (failed) enter_recovery(reason);` -/
def recoverIf (failed : Bool) (reason : Word) : Boot δ Unit :=
  if failed then enterRecovery p reason else pure ()

def halt : Boot δ Unit := throw .halted

/-! ## Memory helpers -/

/-- The loop of `same_bytes`. -/
def diffBytes (left right : Nat) : Nat → Byte → Boot δ Byte
  | 0, diff => pure diff
  | n + 1, diff => do
      let l ← loadByte p left
      let r ← loadByte p right
      diffBytes (left + 1) (right + 1) n (diff ||| (l ^^^ r))

def sameBytes (left right total : Nat) : Boot δ Bool := do
  let diff ← diffBytes p left right total 0
  pure (diff == 0)

def clearBytes (buffer total : Nat) : Boot δ Unit := storeBytes p buffer (List.replicate total 0)

/-! ## SPI -/

def startFlashRead (offset total : Word) : Boot δ Unit := do
  writeRegister p SPI_ADDR offset
  writeRegister p SPI_LEN total
  writeRegister p SPI_COMMAND SPI_CLEAR_DONE
  writeRegister p SPI_COMMAND SPI_START_READ

/-- `while (bytes_read < total_bytes)`: a word resets the spin counter, the last word may be
partial. -/
def pollData (output total bytesRead spin : Nat) : Boot δ Unit :=
  if bytesRead < total then do
    let status ← readRegister p SPI_STATUS
    if status &&& SPI_ERROR ≠ 0 then enterRecovery p SR_LOAD_KERNEL
    else if status &&& SPI_DATA_READY = 0 then
      if MAX_SPIN < spin + 1 then enterRecovery p SR_LOAD_KERNEL
      else pollData output total bytesRead (spin + 1)
    else do
      let word ← readRegister p SPI_DATA
      storeBytes p (output + bytesRead) ((leBytes word).take (total - bytesRead))
      pollData output total (bytesRead + min 4 (total - bytesRead)) 0
  else pure ()
termination_by (total - bytesRead, MAX_SPIN - spin)

/-- `while ((read_register(SPI_STATUS) & SPI_DONE) == 0)` -/
def pollDone (spin : Nat) : Boot δ Unit := do
  let status ← readRegister p SPI_STATUS
  if status &&& SPI_DONE = 0 then
    if MAX_SPIN < spin + 1 then enterRecovery p SR_LOAD_KERNEL else pollDone (spin + 1)
  else pure ()
termination_by MAX_SPIN - spin

def readFlashWords (output total : Nat) : Boot δ Unit := do
  pollData p output total 0 0
  pollDone p 0

def readFlash (offset total : Word) (output : Nat) : Boot δ Unit := do
  startFlashRead p offset total
  readFlashWords p output total.toNat

def readBootParts : Boot δ Unit := do
  readFlash p MANIFEST_OFFSET MANIFEST_SIZE MANIFEST_BUFFER
  readFlash p SIGNATURE_OFFSET SIGNATURE_SIZE SIGNATURE_BUFFER
  readFlash p PUBLIC_KEY_OFFSET PUBLIC_KEY_SIZE PUBLIC_KEY_BUFFER

/-! ## SHA-256 on the stack -/

/-- The object in memory order. -/
def ctxImage (ctx : Sha256.Sha256Ctx) : List Byte :=
  ctx.state.toList.flatMap leBytes ++ (List.range 8).map (byteAt ctx.bitLen) ++
    ctx.buffer.toList ++ (List.range 8).map (byteAt ctx.bufferLen)

def inFrame (a : Nat) : Bool := FRAME_BASE ≤ a && a < FRAME_TOP

/-- The message bytes as the hash reads them: its own frames are in use meanwhile. -/
def loadMessage (a : Nat) : Nat → Boot δ (List Byte)
  | 0 => pure []
  | n + 1 => do
      let b ← loadByte p a
      let s ← get
      let bs ← loadMessage (a + 1) n
      pure ((if inFrame a then p.frames.during s.dev a else b) :: bs)

/-- The stack below `bootrom_main` once `sha256_hash` has returned. -/
def stackAfter (ctx : Sha256.Sha256Ctx) (s : Machine δ) : Memory :=
  Memory.write (fun a => if inFrame a then p.frames.after s.dev a else s.mem a) CTX_BASE
    (ctxImage ctx)

def sha256Hash (data len digest : Nat) : Boot δ Unit := do
  let bs ← loadMessage p data len
  let s ← get
  match Sha256.sha256Hash (p.frames.stale s.dev) bs with
  | none => throw .halted
  | some (ctx, out) => do
      storeBytes p digest out
      modify fun s => { s with mem := stackAfter p ctx s }

/-! ## The stages -/

/-- Stage 0. -/
def checkManifestHeader (manifest : Nat) : Boot δ Unit := do
  let magic ← loadWord p (manifest + MAGIC)
  recoverIf p (magic ≠ MANIFEST_MAGIC) SR_MANIFEST_HEADER
  let headerVersion ← loadHalf p (manifest + HEADER_VERSION)
  recoverIf p (headerVersion ≠ MANIFEST_HEADER_VERSION) SR_MANIFEST_HEADER

/-- The loop of `read_otp_hash`, `n` words from offset `i`. -/
def readOtpWords (output i : Nat) : Nat → Boot δ Unit
  | 0 => pure ()
  | n + 1 => do
      let word ← readRegister p (OTP_BASE + i)
      storeBytes p (output + i) (leBytes word)
      readOtpWords output (i + 4) n

def readOtpHash (output : Nat) : Boot δ Unit := readOtpWords p output 0 (OTP_HASH_SIZE / 4)

/-- Stage 1. -/
def checkPublicKey : Boot δ Unit := do
  sha256Hash p PUBLIC_KEY_BUFFER PUBLIC_KEY_SIZE.toNat PUBLIC_KEY_HASH
  readOtpHash p OTP_HASH_BUFFER
  let same ← sameBytes p PUBLIC_KEY_HASH OTP_HASH_BUFFER OTP_HASH_SIZE
  recoverIf p (!same) SR_PUBLIC_KEY

/-- The loop of `ed25519_write_bytes`, `n` words. -/
def ed25519WriteWords (data : Nat) : Nat → Boot δ Unit
  | 0 => pure ()
  | n + 1 => do
      let word ← loadWord p data
      writeRegister p ED25519_DATA word
      ed25519WriteWords (data + 4) n

def ed25519WriteBytes (data : Nat) (n : Word) : Boot δ Unit :=
  ed25519WriteWords p data (n.toNat / 4)

/-- `while (1)` on the verifier's status. -/
def pollVerdict (spin : Nat) : Boot δ Unit := do
  let status ← readRegister p ED25519_STATUS
  if status &&& ED25519_ERROR ≠ 0 then enterRecovery p SR_MANIFEST_SIGNATURE
  else if status &&& ED25519_DONE ≠ 0 then
    if status &&& ED25519_PASS ≠ 0 then pure () else enterRecovery p SR_MANIFEST_SIGNATURE
  else if MAX_SPIN < spin + 1 then enterRecovery p SR_MANIFEST_SIGNATURE
  else pollVerdict (spin + 1)
termination_by MAX_SPIN - spin

/-- Stage 2. -/
def checkManifestSignature : Boot δ Unit := do
  writeRegister p ED25519_CMD ED25519_CMD_CLEAR
  ed25519WriteBytes p MANIFEST_BUFFER MANIFEST_SIZE
  ed25519WriteBytes p SIGNATURE_BUFFER SIGNATURE_SIZE
  ed25519WriteBytes p PUBLIC_KEY_BUFFER PUBLIC_KEY_SIZE
  writeRegister p ED25519_CMD ED25519_CMD_START
  pollVerdict p 0

/-- What Stage 3 does once the payload is in memory: size and hash are read again. -/
def verifyPayload (manifest kernelOutput : Nat) : Boot δ Unit := do
  let payloadSize ← loadWord p (manifest + PAYLOAD_SIZE)
  sha256Hash p kernelOutput payloadSize.toNat KERNEL_HASH_BUFFER
  let same ← sameBytes p KERNEL_HASH_BUFFER (manifest + PAYLOAD_HASH) SHA256_DIGEST_SIZE
  recoverIf p (!same) SR_LOAD_KERNEL

/-- Stage 3. -/
def checkAndLoadKernel (manifest : Nat) : Boot δ Unit := do
  let loadAddress ← loadWord p (manifest + LOAD_ADDRESS)
  let kernelOutput := loadAddress.toNat
  let payloadSize ← loadWord p (manifest + PAYLOAD_SIZE)
  recoverIf p (payloadSize = 0) SR_LOAD_KERNEL
  recoverIf p (kernelOutput < DRAM_BASE) SR_LOAD_KERNEL
  readFlash p KERNEL_OFFSET payloadSize kernelOutput
  verifyPayload p manifest kernelOutput

/-- The `if (version > counter)` block of Stage 4: write, then read back. -/
def advanceCounter (version : DWord) : Boot δ Unit := do
  writeRegister64 p ROLLBACK_COUNTER_BASE version
  let updated ← readRegister64 p ROLLBACK_COUNTER_BASE
  recoverIf p (updated < version) SR_ROLLBACK_COUNTER

/-- Stage 4. -/
def checkRollbackCounter (manifest : Nat) : Boot δ Unit := do
  let counter ← readRegister64 p ROLLBACK_COUNTER_BASE
  let version ← loadWord p (manifest + VERSION)
  let version := version.setWidth 64
  recoverIf p (version < counter) SR_ROLLBACK_COUNTER
  if counter < version then advanceCounter p version else pure ()

def makeNapot (base size : DWord) : DWord := (base >>> 2) ||| ((size - 1) >>> 3)

/-- Stage 5. -/
def lockPmp : Boot δ Unit := do
  setStatus p SR_LOCK_PMP
  modify fun s => { s with mtvec := RECOVERY_ENTRY }
  let pmpaddr0 := makeNapot BOOTROM_BASE BOOTROM_SIZE
  let pmpaddr1 := makeNapot (BitVec.ofNat 64 OTP_BASE) OTP_SIZE
  let pmpaddr2 := makeNapot (BitVec.ofNat 64 ROLLBACK_COUNTER_BASE) ROLLBACK_COUNTER_SIZE
  let pmpaddr3 := makeNapot 0x0 (1 <<< 54)
  let pmpcfg0 := (PMP_LOCK_NAPOT_RX <<< 0) ||| (PMP_LOCK_NAPOT_NO_ACCESS <<< 8) |||
    (PMP_LOCK_NAPOT_NO_ACCESS <<< 16) ||| (PMP_LOCK_NAPOT_RWX <<< 24) ||| (PMP_LOCK_OFF <<< 32) |||
    (PMP_LOCK_OFF <<< 40) ||| (PMP_LOCK_OFF <<< 48) ||| (PMP_LOCK_OFF <<< 56)
  let pmpcfg2 := (PMP_LOCK_OFF <<< 0) ||| (PMP_LOCK_OFF <<< 8) ||| (PMP_LOCK_OFF <<< 16) |||
    (PMP_LOCK_OFF <<< 24) ||| (PMP_LOCK_OFF <<< 32) ||| (PMP_LOCK_OFF <<< 40) |||
    (PMP_LOCK_OFF <<< 48) ||| (PMP_LOCK_OFF <<< 56)
  modify fun s => { s with pmp := s.pmp.writeAddr 0 pmpaddr0 }
  modify fun s => { s with pmp := s.pmp.writeAddr 1 pmpaddr1 }
  modify fun s => { s with pmp := s.pmp.writeAddr 2 pmpaddr2 }
  modify fun s => { s with pmp := s.pmp.writeAddr 3 pmpaddr3 }
  modify fun s => { s with pmp := s.pmp.writeCfg 8 pmpcfg2 }
  modify fun s => { s with pmp := s.pmp.writeCfg 0 pmpcfg0 }
  let cur ← readRegister p BOOT_STATUS_REG
  writeRegister p BOOT_STATUS_REG (cur &&& ~~~SR_LOCK_PMP)

def clearScratch : Boot δ Unit := do
  clearBytes p MANIFEST_BUFFER MANIFEST_SIZE.toNat
  clearBytes p SIGNATURE_BUFFER SIGNATURE_SIZE.toNat
  clearBytes p PUBLIC_KEY_BUFFER PUBLIC_KEY_SIZE.toNat
  clearBytes p PUBLIC_KEY_HASH SHA256_DIGEST_SIZE
  clearBytes p OTP_HASH_BUFFER OTP_HASH_SIZE
  clearBytes p KERNEL_HASH_BUFFER SHA256_DIGEST_SIZE
  clearBytes p KERNEL_CHUNK KERNEL_CHUNK_SIZE

def jumpToKernel (entryPoint : Word) : Boot δ Unit := do
  modify fun s =>
    { s with
      mepc := entryPoint.toNat, mstatus := s.mstatus ||| 0x1800, a0 := p.hartid, a1 := 0 }
  throw .kernel

def bootromMain : Boot δ Unit := do
  let manifest := MANIFEST_BUFFER
  readBootParts p
  checkManifestHeader p manifest
  checkPublicKey p
  checkManifestSignature p
  checkAndLoadKernel p manifest
  checkRollbackCounter p manifest
  let entryPoint : Word := 0x80000000
  clearScratch p
  lockPmp p
  jumpToKernel p entryPoint
  halt

end SecureBoot.Bootrom
