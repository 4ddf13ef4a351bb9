import SecureBoot.Bootrom.Image
import SecureBoot.Bootrom.Outcome
import SecureBoot.Hardware.IdealFlash

/-!
# Provisioned chips

The manifest format and the flash layout of the tools, and a chip whose flash
holds an image, whose OTP holds the hash of its key, and whose verifier knows
its signature.
-/

namespace SecureBoot.Bootrom

open Words

/-! ## `manifest_generators.py` -/

/-- `struct.pack` of the fields that vary; flags and reserved fields are zero. -/
def Manifest.pack (version payloadSize loadAddress entryPoint : Word) (hash : List Byte)
    (h : hash.length = 32) : Manifest where
  bytes := leBytes MANIFEST_MAGIC ++ [1, 0, 0, 0] ++ leBytes version ++ leBytes payloadSize ++
    leBytes loadAddress ++ leBytes entryPoint ++ List.replicate 8 0 ++ hash ++ List.replicate 32 0
  length_eq := by simp [h]

section Pack

variable (version payloadSize loadAddress entryPoint : Word) (hash : List Byte)
  (h : hash.length = 32)

theorem Manifest.pack_headerOk :
    (pack version payloadSize loadAddress entryPoint hash h).HeaderOk :=
  ⟨leWord_byteAt MANIFEST_MAGIC, show (0#8 ++ 1#8 : BitVec 16) = 1 by decide⟩

@[simp] theorem Manifest.pack_version :
    (pack version payloadSize loadAddress entryPoint hash h).version = version.setWidth 64 := by
  rw [Manifest.version, show word (pack version payloadSize loadAddress entryPoint hash h) VERSION =
    version from leWord_byteAt version]

@[simp] theorem Manifest.pack_payloadSize :
    (pack version payloadSize loadAddress entryPoint hash h).payloadSize = payloadSize.toNat := by
  rw [Manifest.payloadSize, show word (pack version payloadSize loadAddress entryPoint hash h)
    PAYLOAD_SIZE = payloadSize from leWord_byteAt payloadSize]

@[simp] theorem Manifest.pack_loadAddress :
    (pack version payloadSize loadAddress entryPoint hash h).loadAddress = loadAddress.toNat := by
  rw [Manifest.loadAddress, show word (pack version payloadSize loadAddress entryPoint hash h)
    LOAD_ADDRESS = loadAddress from leWord_byteAt loadAddress]

@[simp] theorem Manifest.pack_entryPoint :
    (pack version payloadSize loadAddress entryPoint hash h).entryPoint = entryPoint.toNat := by
  rw [Manifest.entryPoint, show word (pack version payloadSize loadAddress entryPoint hash h)
    ENTRY_POINT = entryPoint from leWord_byteAt entryPoint]

@[simp] theorem Manifest.pack_payloadHash :
    (pack version payloadSize loadAddress entryPoint hash h).payloadHash = hash := by
  have hdrop : (pack version payloadSize loadAddress entryPoint hash h).bytes.drop PAYLOAD_HASH =
      hash ++ List.replicate 32 0 := by
    simp only [pack, PAYLOAD_HASH, List.append_assoc]
    rfl
  rw [payloadHash, hdrop, List.take_left' h]

end Pack

/-! ## `sign_firmware.py` -/

/-- `[Manifest(96)] [Signature(64)] [PubKey(32)] [Kernel(...)]` -/
def Image.flash (I : Image) : Memory :=
  Memory.write (fun _ => 0) 0 (I.manifest.bytes ++ I.signature ++ I.publicKey ++ I.payload)

namespace Image

variable (I : Image)

/-! The parts of the image, as slices of it. -/

theorem image_length : (I.manifest.bytes ++ I.signature ++ I.publicKey ++ I.payload).length =
    0xC0 + I.payload.length := by
  simp only [List.length_append, I.manifest.length_eq, I.signature_length, I.publicKey_length]

theorem take_image :
    (I.manifest.bytes ++ I.signature ++ I.publicKey ++ I.payload).take 96 = I.manifest.bytes := by
  rw [List.append_assoc, List.append_assoc, List.take_left' I.manifest.length_eq]

theorem signature_image :
    ((I.manifest.bytes ++ I.signature ++ I.publicKey ++ I.payload).drop 0x60).take 64 =
      I.signature := by
  rw [List.append_assoc, List.append_assoc, List.drop_left' I.manifest.length_eq,
    List.take_left' I.signature_length]

theorem publicKey_image :
    ((I.manifest.bytes ++ I.signature ++ I.publicKey ++ I.payload).drop 0xA0).take 32 =
      I.publicKey := by
  have hfront : (I.manifest.bytes ++ I.signature).length = 0xA0 := by
    rw [List.length_append, I.manifest.length_eq, I.signature_length]
  rw [List.append_assoc, List.drop_left' hfront, List.take_left' I.publicKey_length]

theorem drop_image :
    (I.manifest.bytes ++ I.signature ++ I.publicKey ++ I.payload).drop 0xC0 = I.payload := by
  have hfront : (I.manifest.bytes ++ I.signature ++ I.publicKey).length = 0xC0 := by
    simp only [List.length_append, I.manifest.length_eq, I.signature_length, I.publicKey_length]
  rw [List.drop_left' hfront]

theorem flash_slice (k n : Nat) (h : k + n ≤ 0xC0 + I.payload.length) :
    I.flash.read k n =
      ((I.manifest.bytes ++ I.signature ++ I.publicKey ++ I.payload).drop k).take n := by
  have hslice := Memory.read_write_slice (fun _ => 0) 0 k n
    (I.manifest.bytes ++ I.signature ++ I.publicKey ++ I.payload) (by rwa [I.image_length])
  rwa [Nat.zero_add] at hslice

theorem flash_manifest : I.flash.read 0 96 = I.manifest.bytes := by
  rw [I.flash_slice 0 96 (by omega), List.drop_zero, I.take_image]

theorem flash_signature : I.flash.read 0x60 64 = I.signature := by
  rw [I.flash_slice 0x60 64 (by omega), I.signature_image]

theorem flash_publicKey : I.flash.read 0xA0 32 = I.publicKey := by
  rw [I.flash_slice 0xA0 32 (by omega), I.publicKey_image]

theorem flash_payload (n : Nat) (hn : I.payload.length = n) : I.flash.read 0xC0 n = I.payload := by
  rw [I.flash_slice 0xC0 n (by omega), I.drop_image, List.take_of_length_le (by omega)]

/-! ## The chip -/

def zeroFrames {δ : Type} : Frames δ where
  stale _ := ⟨Vector.replicate 8 0, 0, Vector.replicate 64 0, 0⟩
  during _ _ := 0
  after _ _ := 0

/-- Byte accesses to the windows read zero and change nothing. -/
def chip : Soc IdealFlash where
  port := IdealFlash.port I.flash
  otpHash := ⟨(Fips180.sha256 I.publicKey).toArray, by simp [Fips180.sha256_length]⟩
  script files := decide (files = ⟨I.manifest.bytes, I.signature, I.publicKey⟩)
  hartid := 0
  frames := zeroFrames
  read8 _ d := (0, d)
  write8 _ _ d := d

theorem chip_accepts {M : Manifest} {signature publicKey : List Byte}
    (h : I.chip.script ⟨M.bytes, signature, publicKey⟩ = true) : M = I.manifest := by
  have hfiles := of_decide_eq_true h
  obtain ⟨bytes, hlen⟩ := M
  generalize hI : I.manifest = N at hfiles ⊢
  obtain ⟨bytes', hlen'⟩ := N
  have hbytes : bytes = bytes' := (Ed25519.Files.mk.inj hfiles).1
  subst hbytes
  rfl

/-- The hart as `_start` leaves it, over a given DRAM and counter. -/
def atReset (mem : Memory) (counter : DWord) : Machine (Devices IdealFlash) where
  mem := mem
  dev :=
    { spi := ⟨0, 4, 0⟩
      ed25519 := ⟨Vector.replicate 192 0, 0, 0, 0, ⟨[], [], []⟩⟩
      counter := counter
      status := 0 }
  mtvec := START
  mepc := 0
  mstatus := 0
  a0 := 0
  a1 := 0
  pmp := .zero

theorem atReset_off (mem : Memory) (counter : DWord) : (atReset mem counter).pmp.Off := Pmp.zero_off

theorem chip_verified (h : I.manifest.HeaderOk) : I.Verified I.chip := by
  refine ⟨h, ?_, ?_⟩
  · simp [KeyOk, chip]
  · simp [SignatureOk, chip]

/-- A chip with the image in its flash, whatever the rest of it is. -/
theorem flash_serves (soc : Soc IdealFlash) (hport : soc.port = IdealFlash.port I.flash)
    (hlen : I.payload.length = I.manifest.payloadSize) (q : IdealFlash) : I.ServedBy soc q := by
  obtain ⟨q₁, h₁⟩ := IdealFlash.serves I.flash MAX_SPIN MANIFEST_OFFSET MANIFEST_SIZE q
  obtain ⟨q₂, h₂⟩ := IdealFlash.serves I.flash MAX_SPIN SIGNATURE_OFFSET SIGNATURE_SIZE q₁
  obtain ⟨q₃, h₃⟩ := IdealFlash.serves I.flash MAX_SPIN PUBLIC_KEY_OFFSET PUBLIC_KEY_SIZE q₂
  obtain ⟨q₄, h₄⟩ := IdealFlash.serves I.flash MAX_SPIN KERNEL_OFFSET
    (I.manifest.word PAYLOAD_SIZE) q₃
  rw [show MANIFEST_OFFSET.toNat = 0 from rfl, show MANIFEST_SIZE.toNat = 96 from rfl,
    flash_manifest, ← hport] at h₁
  rw [show SIGNATURE_OFFSET.toNat = 0x60 from rfl, show SIGNATURE_SIZE.toNat = 64 from rfl,
    flash_signature, ← hport] at h₂
  rw [show PUBLIC_KEY_OFFSET.toNat = 0xA0 from rfl, show PUBLIC_KEY_SIZE.toNat = 32 from rfl,
    flash_publicKey, ← hport] at h₃
  rw [show KERNEL_OFFSET.toNat = 0xC0 from rfl, ← Manifest.payloadSize, I.flash_payload _ hlen,
    ← hport] at h₄
  exact ⟨q₁, q₂, q₃, h₁, h₂, h₃, fun _ _ => ⟨q₄, h₄⟩⟩

theorem chip_serves (hlen : I.payload.length = I.manifest.payloadSize) (q : IdealFlash) :
    I.ServedBy I.chip q := I.flash_serves I.chip rfl hlen q

/-- The tools run on `kernel`, while the flash delivers `payload` in its place. -/
def firmware (version loadAddress entryPoint : Word) (kernel payload signature : List Byte)
    (h : signature.length = 64) : Image where
  manifest := .pack version (BitVec.ofNat 32 kernel.length) loadAddress entryPoint
    (Fips180.sha256 kernel) (Fips180.sha256_length _)
  signature := signature
  publicKey := Ed25519.metadata.publicKey
  payload := payload
  signature_length := h
  publicKey_length := by simp [Ed25519.metadata, ofHex]

/-- The manifest that is accepted is the one that is served. -/
theorem ServedBy.accepted {σ : Type} {soc : Soc σ} {I : Image} {s t : Machine (Devices σ)}
    (hserved : I.ServedBy soc s.dev.spi) (h : untilStage3 soc.platform s = .ok () t) :
    Manifest.ofMem t.mem = I.manifest := by
  obtain ⟨q₁, q₂, q₃, h₁, h₂, h₃, _⟩ := hserved
  have hparts := readBootParts_serves soc I s q₁ q₂ q₃ h₁ h₂ h₃
  rw [untilStage3_manifest soc hparts h, withParts, I.ofMem_partsMem]

/-- The manifest the chip accepts is the image's. -/
theorem chip_untilStage3 {s t : Machine (Devices IdealFlash)}
    (h : untilStage3 I.chip.platform s = .ok () t) : Manifest.ofMem t.mem = I.manifest :=
  I.chip_accepts ((untilStage3_wp I.chip s).ok h).1.signature

section Firmware

variable (version loadAddress entryPoint : Word) (kernel payload signature : List Byte)
  (h : signature.length = 64)

@[simp] theorem firmware_version :
    (firmware version loadAddress entryPoint kernel payload signature h).manifest.version =
      version.setWidth 64 := Manifest.pack_version _ _ _ _ _ (Fips180.sha256_length _)

@[simp] theorem firmware_loadAddress :
    (firmware version loadAddress entryPoint kernel payload signature h).manifest.loadAddress =
      loadAddress.toNat := Manifest.pack_loadAddress _ _ _ _ _ (Fips180.sha256_length _)

@[simp] theorem firmware_entryPoint :
    (firmware version loadAddress entryPoint kernel payload signature h).manifest.entryPoint =
      entryPoint.toNat := Manifest.pack_entryPoint _ _ _ _ _ (Fips180.sha256_length _)

@[simp] theorem firmware_payloadSize (hlen : kernel.length < 2 ^ 32) :
    (firmware version loadAddress entryPoint kernel payload signature h).manifest.payloadSize =
      kernel.length := by
  rw [firmware, Manifest.pack_payloadSize, BitVec.toNat_ofNat, Nat.mod_eq_of_lt hlen]

@[simp] theorem firmware_payloadHash :
    (firmware version loadAddress entryPoint kernel payload signature h).manifest.payloadHash =
      Fips180.sha256 kernel := Manifest.pack_payloadHash _ _ _ _ _ (Fips180.sha256_length _)

end Firmware

/-- The payload has the size that the manifest says and a range in DRAM that is clear. -/
structure Placed : Prop where
  length : I.payload.length = I.manifest.payloadSize
  nonempty : 0 < I.manifest.payloadSize
  bottom : 0x80000000 ≤ I.manifest.loadAddress
  top : I.manifest.loadAddress + I.manifest.payloadSize ≤ 0x90000000
  clear : LoadClear I.manifest

variable {I}

/-- It has if it ends below the scratch area. -/
theorem placed_below (hlen : I.payload.length = I.manifest.payloadSize)
    (hpos : 0 < I.manifest.payloadSize) (hload : 0x80000000 ≤ I.manifest.loadAddress)
    (htop : I.manifest.loadAddress + I.manifest.payloadSize ≤ BOOT_SCRATCH_BASE) : I.Placed where
  length := hlen
  nonempty := hpos
  bottom := hload
  top := Nat.le_trans htop (by decide)
  clear := loadClear_below htop

theorem Placed.not_loadRefused (h : I.Placed) : ¬ LoadRefused I.manifest := by
  have haddr := addresses
  have hpos := h.nonempty
  have hload := h.bottom
  unfold LoadRefused
  omega

/-- A chip that verifies the image in its flash boots it, up to the hash of the payload. -/
theorem Placed.flash_loads (h : I.Placed) (soc : Soc IdealFlash)
    (hport : soc.port = IdealFlash.port I.flash) (hverified : I.Verified soc) (mem : Memory)
    (counter : DWord) :
    ∃ t, Loaded I (atReset mem counter) t ∧ bootromMain soc.platform (atReset mem counter) =
      if Fips180.sha256 I.payload = I.manifest.payloadHash then afterLoad soc.platform t
      else .error .recovery (recoveryState soc.platform SR_LOAD_KERNEL t) :=
  bootromMain_loads soc I (atReset mem counter) (I.flash_serves soc hport h.length _) hverified
    h.not_loadRefused (soc.ramRange _ _ h.bottom h.top) h.clear

theorem Placed.flash_boots (h : I.Placed) (soc : Soc IdealFlash)
    (hport : soc.port = IdealFlash.port I.flash) (hverified : I.Verified soc) (mem : Memory)
    (counter : DWord) (hhash : Fips180.sha256 I.payload = I.manifest.payloadHash)
    (hversion : counter ≤ I.manifest.version) :
    ∃ t, bootromMain soc.platform (atReset mem counter) = .error .kernel (kernelState soc t) := by
  obtain ⟨t, hloaded, hrun⟩ := h.flash_loads soc hport hverified mem counter
  have hcounter : t.dev.counter = counter := (Prod.mk.inj hloaded.kept.dev).1
  refine ⟨t, ?_⟩
  rw [hrun, if_pos hhash]
  exact afterLoad_accepts soc t (by rw [hcounter, hloaded.manifest]; exact hversion)

theorem Placed.chip_loads (h : I.Placed) (mem : Memory) (counter : DWord)
    (hheader : I.manifest.HeaderOk) :
    ∃ t, Loaded I (atReset mem counter) t ∧ bootromMain I.chip.platform (atReset mem counter) =
      if Fips180.sha256 I.payload = I.manifest.payloadHash then afterLoad I.chip.platform t
      else .error .recovery (recoveryState I.chip.platform SR_LOAD_KERNEL t) :=
  h.flash_loads I.chip rfl (I.chip_verified hheader) mem counter

/-- A provisioned chip boots its image. -/
theorem Placed.chip_boots (h : I.Placed) (mem : Memory) (counter : DWord)
    (hheader : I.manifest.HeaderOk) (hhash : Fips180.sha256 I.payload = I.manifest.payloadHash)
    (hversion : counter ≤ I.manifest.version) :
    ∃ t, bootromMain I.chip.platform (atReset mem counter) =
      .error .kernel (kernelState I.chip t) :=
  h.flash_boots I.chip rfl (I.chip_verified hheader) mem counter hhash hversion

end Image

/-- A kernel of one instruction, signed with the development key. -/
def selfLoop : Image :=
  .firmware 1 0x80000000 0x80000000 [0x6F, 0, 0, 0] [0x6F, 0, 0, 0]
    (ofHex 32 0x0b8edc8652d3088b766377cd513bc7e5424f53ba8844f03444dcaae8ae59025b ++
      ofHex 32 0x763bcb853dfb0cbebb5f8d08f2d8f493c1df8f72aaca8cd2e6d935cd77791c06) (by decide)

theorem selfLoop_size : selfLoop.manifest.payloadSize = 4 := by simp [selfLoop]

theorem selfLoop_load : selfLoop.manifest.loadAddress = 0x80000000 := by simp [selfLoop]

theorem selfLoop_placed : selfLoop.Placed :=
  Image.placed_below selfLoop_size.symm (by rw [selfLoop_size]; decide)
    (by rw [selfLoop_load]) (by rw [selfLoop_load, selfLoop_size]; decide)

/-- It boots on a fresh counter, and is refused once a later version has been accepted. -/
theorem selfLoop_runs (mem : Memory) (counter : DWord) :
    ∃ t, Loaded selfLoop (Image.atReset mem counter) t ∧
      bootromMain selfLoop.chip.platform (Image.atReset mem counter) =
        if counter ≤ 1 then .error .kernel (kernelState selfLoop.chip t)
        else .error .recovery (recoveryState selfLoop.chip.platform SR_ROLLBACK_COUNTER t) := by
  have hhash : selfLoop.manifest.payloadHash = Fips180.sha256 [0x6F, 0, 0, 0] := by simp [selfLoop]
  have hversion : selfLoop.manifest.version = 1 := by simp [selfLoop]
  obtain ⟨t, hloaded, hrun⟩ := selfLoop_placed.chip_loads mem counter
    (Manifest.pack_headerOk _ _ _ _ _ (Fips180.sha256_length _))
  have hcounter : t.dev.counter = counter := (Prod.mk.inj hloaded.kept.dev).1
  have hman : (Manifest.ofMem t.mem).version = 1 := by rw [hloaded.manifest, hversion]
  refine ⟨t, hloaded, ?_⟩
  rw [hhash, if_pos (by rfl)] at hrun
  rw [hrun]
  by_cases hle : counter ≤ 1
  · rw [if_pos hle, afterLoad_accepts _ t (by rwa [hcounter, hman])]
  · rw [if_neg hle, afterLoad_refuses _ t (by rw [hcounter, hman]; exact BitVec.not_le.mp hle)]

theorem selfLoop_boots : ∃ t, bootromMain selfLoop.chip.platform (Image.atReset (fun _ => 0) 0) =
    .error .kernel (kernelState selfLoop.chip t) :=
  (selfLoop_runs _ 0).imp fun _ h => h.2

theorem selfLoop_refused : ∃ t, bootromMain selfLoop.chip.platform (Image.atReset (fun _ => 0) 2) =
    .error .recovery (recoveryState selfLoop.chip.platform SR_ROLLBACK_COUNTER t) :=
  (selfLoop_runs _ 2).imp fun _ h => h.2

end SecureBoot.Bootrom
