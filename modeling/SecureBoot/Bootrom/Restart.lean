import SecureBoot.Bootrom.Alike
import SecureBoot.Bootrom.FailClosed
import SecureBoot.Bootrom.Toolchain
import SecureBoot.Hardware.Spi.Lagging

/-!
# After a store fault

A signed payload that runs out of memory while it is loaded. The hart goes back to `_start` in the
middle of a flash transaction, and what is left of it decides whether BootROM ever reads the flash
again.
-/

namespace SecureBoot.Bootrom

open Words Exec Spi

/-! ## The load up to the fault -/

section Platform

variable {δ : Type} (p : Platform δ)

/-- The bytes before the fault are stored. -/
theorem storeBytes_fault (a k : Nat) (bs : List Byte) (s : Machine δ) (hk : k < bs.length)
    (hram : p.RamRange a k) (hun : p.mapped (a + k) = false) :
    storeBytes p a bs s = .error (.fault (a + k)) { s with mem := s.mem.write a (bs.take k) } := by
  induction bs generalizing a k s with
  | nil => cases hk
  | cons b bs ih =>
      rw [storeBytes]
      cases k with
      | zero =>
          rw [Nat.add_zero] at hun
          rcases Bool.or_eq_false_iff.mp hun with ⟨hnot, hmmio⟩
          rw [bind_of_error (storeByte_fault p a b s hnot hmmio), List.take_zero,
            Memory.write_nil]
          rfl
      | succ k =>
          rw [List.length_cons] at hk
          rw [← Nat.add_assoc, Nat.add_right_comm] at hun
          rw [bind_of_ok (storeByte_ram p a b s (hram a (by omega) (by omega))),
            ih (a + 1) k _ (by omega) (hram.mono (by omega) (by omega)) hun, List.take_succ_cons,
            Memory.write_cons, Nat.add_right_comm, Nat.add_assoc]

/-- The data loop takes whole words until one of them does not fit. -/
theorem pollData_faults (output total bytesRead k words : Nat) (s : Machine δ) (d' : δ)
    (hk : bytesRead + k < total) (hram : p.RamRange (output + bytesRead) k)
    (hun : p.mapped (output + bytesRead + k) = false) (hwords : words = k / 4 + 1)
    (h : p.spiPort.Takes MAX_SPIN words s.dev d') :
    ∃ mem, pollData p output total bytesRead 0 s =
      .error (.fault (output + bytesRead + k)) { s with mem := mem, dev := d' } := by
  generalize hq : s.dev = q at h
  induction h generalizing bytesRead k s with
  | zero q => omega
  | succ words q q₁ q' hpoll hrest ih =>
      subst hq
      generalize hw : (p.spiPort.read 0x10 q₁).1 = word
      generalize hq₂ : (p.spiPort.read 0x10 q₁).2 = q₂ at hrest ih
      have hread : readRegister p SPI_DATA { s with dev := q₁ } =
          .ok word { s with dev := q₂ } := by
        rw [readData_eq, ← hw, ← hq₂]
      have hlen := leBytes_take_length word (total - bytesRead)
      rw [pollData_answers p output total bytesRead 0 MAX_SPIN s q₁ (by omega) (by omega) hpoll,
        bind_of_ok hread]
      by_cases hlast : k < 4
      · have hstore := storeBytes_fault p (output + bytesRead) k
          ((leBytes word).take (total - bytesRead)) { s with dev := q₂ } (by rw [hlen]; omega) hram
          hun
        have hnone : words = 0 := by omega
        subst hnone
        cases hrest
        exact ⟨_, bind_of_error hstore _⟩
      · have hstore := storeBytes_ram p (output + bytesRead)
          ((leBytes word).take (total - bytesRead)) { s with dev := q₂ }
          (by rw [hlen]; exact hram.mono (by omega) (by omega))
        have hfour : min 4 (total - bytesRead) = 4 := by omega
        have hnext : output + (bytesRead + 4) + (k - 4) = output + bytesRead + k := by omega
        rw [bind_of_ok hstore, hfour, ← hnext]
        exact ih (bytesRead + 4) (k - 4)
          { s with
            mem := s.mem.write (output + bytesRead) ((leBytes word).take (total - bytesRead))
            dev := q₂ }
          (by omega) (hram.mono (by omega) (by omega)) (by rw [hnext]; exact hun) (by omega) rfl

theorem readFlash_faults (offset total : Word) (output k : Nat) (s : Machine δ) (d' : δ)
    (hk : k < total.toNat) (hram : p.RamRange output k) (hun : p.mapped (output + k) = false)
    (h : p.spiPort.Takes MAX_SPIN (k / 4 + 1) (p.spiPort.start offset total s.dev) d') :
    ∃ mem, readFlash p offset total output s =
      .error (.fault (output + k)) { s with mem := mem, dev := d' } := by
  rcases pollData_faults p output total.toNat 0 k (k / 4 + 1)
    { s with dev := p.spiPort.start offset total s.dev } d' (by omega) hram hun rfl h with
    ⟨mem, hpoll⟩
  refine ⟨mem, ?_⟩
  rw [readFlash, bind_of_ok (startFlashRead_eq p offset total s), readFlashWords]
  exact bind_of_error hpoll _

end Platform

/-! ## The boot up to the fault -/

/-- The load range leaves memory after `k` bytes. -/
structure LeavesRam {σ : Type} (soc : Soc σ) (M : Manifest) (k : Nat) : Prop where
  inside : k < M.payloadSize
  ram : soc.platform.RamRange M.loadAddress k
  unmapped : soc.platform.mapped (M.loadAddress + k) = false

variable (soc : Soc Host) (f : Storage) (gap : Nat → Nat) (patience : Nat)

/-- The block serves the boot parts, and streams `ws` when it is asked for the payload. -/
def Image.StreamedBy (I : Image) (ws : List Word) (q : Host) : Prop :=
  ∃ q₁ q₂ q₃,
    soc.port.Serves MAX_SPIN MANIFEST_OFFSET MANIFEST_SIZE q I.manifest.bytes q₁ ∧
    soc.port.Serves MAX_SPIN SIGNATURE_OFFSET SIGNATURE_SIZE q₁ I.signature q₂ ∧
    soc.port.Serves MAX_SPIN PUBLIC_KEY_OFFSET PUBLIC_KEY_SIZE q₂ I.publicKey q₃ ∧
    (soc.port.start KERNEL_OFFSET (I.manifest.word PAYLOAD_SIZE) q₃).hung = false ∧
    (soc.port.start KERNEL_OFFSET (I.manifest.word PAYLOAD_SIZE) q₃).block.Streams f ws

theorem LeavesRam.payload {M : Manifest} {k : Nat} (h : LeavesRam soc M k) :
    M.word PAYLOAD_SIZE ≠ 0 := by
  intro hzero
  have hin := h.inside
  have hnone := (payloadSize_eq_zero_iff M).mpr hzero
  omega

/-- A ready block streams the payload. -/
theorem Image.streamedBy_ready (hport : soc.port = Host.port f gap patience) {k : Nat}
    (hleaves : LeavesRam soc (Image.ofFlash f.memory).manifest k) {q : Host} (hq : q.Ready) :
    (Image.ofFlash f.memory).StreamedBy soc f
      (pack f 0xC0 (Image.ofFlash f.memory).manifest.payloadSize) q := by
  rcases hq.serves f gap patience MAX_SPIN (by decide) MANIFEST_OFFSET MANIFEST_SIZE (by decide)
    with ⟨q₁, h₁, hq₁⟩
  rcases hq₁.serves f gap patience MAX_SPIN (by decide) SIGNATURE_OFFSET SIGNATURE_SIZE (by decide)
    with ⟨q₂, h₂, hq₂⟩
  rcases hq₂.serves f gap patience MAX_SPIN (by decide) PUBLIC_KEY_OFFSET PUBLIC_KEY_SIZE
    (by decide) with ⟨q₃, h₃, hq₃⟩
  rw [StreamedBy, hport]
  exact ⟨q₁, q₂, q₃, h₁, h₂, h₃, hq₃.streams gap KERNEL_OFFSET _ hleaves.payload⟩

/-- Stage 3 takes the words up to the one that faults. -/
theorem checkAndLoadKernel_faults (hport : soc.port = Host.port f gap patience) {M : Manifest}
    {k : Nat} (hload : DRAM_BASE ≤ M.loadAddress) (hleaves : LeavesRam soc M k)
    (s : Machine (Devices Host)) (hM : Manifest.ofMem s.mem = M) {ws : List Word}
    (hhung : (soc.port.start KERNEL_OFFSET (M.word PAYLOAD_SIZE) s.dev.spi).hung = false)
    (hstream : (soc.port.start KERNEL_OFFSET (M.word PAYLOAD_SIZE) s.dev.spi).block.Streams f ws)
    (hwords : k / 4 + 1 ≤ ws.length) :
    ∃ mem q, checkAndLoadKernel soc.platform MANIFEST_BUFFER s =
        .error (.fault (M.loadAddress + k)) { s with mem := mem, dev := { s.dev with spi := q } } ∧
      q.Lags f (ws.drop (k / 4 + 1)) := by
  have hin := hleaves.inside
  have hguard : ¬ LoadRefused (Manifest.ofMem s.mem) := by
    rw [hM]
    intro hrefused
    rcases hrefused with hzero | hlow
    · omega
    · omega
  have hstage := checkAndLoadKernel_load soc s hguard
  rw [hM] at hstage
  rcases Host.streams_takes gap patience MAX_SPIN (by decide) (k / 4 + 1) _ hhung hstream hwords
    with ⟨q, htakes, hq, hleft⟩
  rw [← hport] at htakes
  have hlifted := htakes.lift (soc.embeds s.dev)
  rw [← (soc.embeds s.dev).start] at hlifted
  rcases readFlash_faults soc.platform KERNEL_OFFSET (M.word PAYLOAD_SIZE) M.loadAddress k s _ hin
    hleaves.ram hleaves.unmapped hlifted with ⟨mem, hread⟩
  refine ⟨mem, q, ?_, hq, hleft.bounded, hleft.pending⟩
  rw [hstage]
  exact bind_of_error hread _

/-- The whole boot, up to the fault. -/
theorem bootromMain_faults (hport : soc.port = Host.port f gap patience) {I : Image}
    {ws : List Word} {k : Nat} (hverified : I.Verified soc)
    (hload : DRAM_BASE ≤ I.manifest.loadAddress) (hleaves : LeavesRam soc I.manifest k)
    (hwords : k / 4 + 1 ≤ ws.length) (s : Machine (Devices Host))
    (hstreamed : I.StreamedBy soc f ws s.dev.spi) :
    ∃ s', bootromMain soc.platform s = .error (.fault (I.manifest.loadAddress + k)) s' ∧
      s'.mtvec = s.mtvec ∧ s'.dev.spi.Lags f (ws.drop (k / 4 + 1)) := by
  rcases hstreamed with ⟨q₁, q₂, q, h₁, h₂, h₃, hhung, hstream⟩
  have hparts := readBootParts_serves soc I s q₁ q₂ q h₁ h₂ h₃
  rcases hverified with ⟨hheader, hkey, hsig⟩
  obtain ⟨mem, v, hmem, hverify⟩ := afterParts_verified soc (withParts I q s)
    (by rw [withParts, I.ofMem_partsMem]; exact hheader)
    ((I.keyOk_partsMem soc s.mem).mpr hkey) ((I.signatureOk_partsMem soc s.mem).mpr hsig)
  have hman : Manifest.ofMem mem = I.manifest :=
    (manifest_kept hmem).trans (I.ofMem_partsMem s.mem)
  rcases checkAndLoadKernel_faults soc f gap patience hport hload hleaves
    { withParts I q s with mem := mem, dev := { (withParts I q s).dev with ed25519 := v } } hman
    hhung hstream hwords with ⟨mem', q', hstage, hleft⟩
  have hrun := (congrFun (bootromMain_eq soc.platform) s).trans (bind_of_ok hparts _)
  rw [hverify, afterVerify, bind_of_error hstage] at hrun
  exact ⟨_, hrun, rfl, hleft⟩

/-! ## The boot after it -/

/-- `start_flash_read` never gets its first command through, however long the router waits. -/
def NeverStarts (f : Storage) (gap : Nat → Nat) (q : Host) : Prop :=
  ∀ patience, ((Host.port f gap patience).start MANIFEST_OFFSET MANIFEST_SIZE q).hung = true

/-- A signed payload with its load address not below DRAM, where Stage 3 would refuse it, that runs
out of memory after `k` bytes faults there, the hart goes back to `_start`, and the boot that
follows hangs on its first flash command exactly if more of the payload was left than the FIFO
holds. -/
theorem restart_hangs_iff (hport : soc.port = Host.port f gap patience) {I : Image}
    (hflash : I = .ofFlash f.memory) {k : Nat} (hverified : I.Verified soc)
    (hload : DRAM_BASE ≤ I.manifest.loadAddress) (hleaves : LeavesRam soc I.manifest k)
    (s : Machine (Devices Host)) (hready : s.dev.spi.Ready) (hmtvec : s.mtvec = START) :
    ∃ s', bootromMain soc.platform s = .error (.fault (I.manifest.loadAddress + k)) s' ∧
      Exit.continuesAt s' (.fault (I.manifest.loadAddress + k)) = some START ∧
      ∀ gap', NeverStarts f gap' s'.dev.spi ↔
        Block.fifoDepth < wordCount I.manifest.payloadSize - (k / 4 + 1) := by
  subst hflash
  have hin := hleaves.inside
  have hlength := pack_length f 0xC0 (Image.ofFlash f.memory).manifest.payloadSize
  have hwords : k / 4 + 1 ≤ wordCount (Image.ofFlash f.memory).manifest.payloadSize := by
    unfold wordCount
    omega
  rcases bootromMain_faults soc f gap patience hport hverified hload hleaves
    (by rw [hlength]; exact hwords) s
    (Image.streamedBy_ready soc f gap patience hport hleaves hready) with ⟨s', hrun, htrap, hleft⟩
  refine ⟨s', hrun, ?_, fun gap' => ?_⟩
  · rw [Exit.continuesAt, htrap, hmtvec]
  · have hhangs := hleft.start_hangs_iff gap' MANIFEST_OFFSET MANIFEST_SIZE (by decide)
    rwa [List.length_drop, hlength] at hhangs

/-! ### A kernel for the end of DRAM -/

/-- A flash that begins with the boot parts of an image is as good as the image. -/
theorem Image.ofFlash_parts {I : Image} {flash : Memory} (h : ∀ a < 0xC0, flash a = I.flash a) :
    (Image.ofFlash flash).manifest = I.manifest ∧ (Image.ofFlash flash).signature = I.signature ∧
      (Image.ofFlash flash).publicKey = I.publicKey := by
  have hread : ∀ a n, a + n ≤ 0xC0 → flash.read a n = I.flash.read a n := by
    intro a n han
    exact Memory.read_congr fun i hi => h (a + i) (by omega)
  have hbytes : flash.read 0 96 = I.manifest.bytes := by
    rw [hread 0 96 (by decide), I.flash_manifest]
  refine ⟨?_, ?_, ?_⟩
  · simp only [Image.ofFlash, hbytes]
  · exact (hread 0x60 64 (by decide)).trans I.flash_signature
  · exact (hread 0xA0 32 (by decide)).trans I.flash_publicKey

/-- An image in the flash behind the real block, on a chip that accepts it. -/
def Image.storage (I : Image) : Storage := { Block.blankStorage with mem := I.flash }

def Image.blockChip (I : Image) : Soc Host :=
  { blankSoc with
    port := Host.port I.storage (fun _ => 3) 0
    otpHash := I.chip.otpHash
    script := I.chip.script }

theorem Image.storage_memory (I : Image) (a : Nat) (ha : a < 2 ^ 20) :
    I.storage.memory a = I.flash a := by
  show I.flash (a % 2 ^ 20) = I.flash a
  rw [Nat.mod_eq_of_lt ha]

theorem Image.storage_parts (I : Image) :
    (Image.ofFlash I.storage.memory).manifest = I.manifest ∧
      (Image.ofFlash I.storage.memory).signature = I.signature ∧
      (Image.ofFlash I.storage.memory).publicKey = I.publicKey :=
  Image.ofFlash_parts fun a ha => I.storage_memory a (by omega)

theorem Image.blockChip_verified (I : Image) (h : I.manifest.HeaderOk) :
    (Image.ofFlash I.storage.memory).Verified I.blockChip := by
  rcases I.storage_parts with ⟨hman, hsig, hkey⟩
  rcases I.chip_verified h with ⟨hheader, hkeyOk, hsigOk⟩
  refine ⟨?_, ?_, ?_⟩
  · rw [hman]
    exact hheader
  · rw [Image.KeyOk, hkey]
    exact hkeyOk
  · rw [Image.SignatureOk, hman, hsig, hkey]
    exact hsigOk

/-- 128 bytes of zeros, signed for the address behind the last one of DRAM. -/
def zerosPastDram : Image :=
  .firmware 1 0x90000000 0x90000000 (List.replicate 128 0) (List.replicate 128 0)
    (ofHex 32 0x79d7e30b6a37fcb92731c87c0405eb29304b417be7e777ac2d8f34001854c6e7 ++
      ofHex 32 0xa17f185d4ee4f68aa54b5c4650da8b8514ad6225fd2fbe8bbff46f4a57fbc40d) (by decide)

theorem zerosPastDram_restarts : ∃ s',
    bootromMain zerosPastDram.blockChip.platform blankReset = .error (.fault 0x90000000) s' ∧
      Exit.continuesAt s' (.fault 0x90000000) = some START ∧
      NeverStarts zerosPastDram.storage (fun _ => 3) s'.dev.spi := by
  rcases zerosPastDram.storage_parts with ⟨hman, _, _⟩
  have hload : zerosPastDram.manifest.loadAddress = 0x90000000 := by simp [zerosPastDram]
  have hsize : zerosPastDram.manifest.payloadSize = 128 := by simp [zerosPastDram]
  have hverified := zerosPastDram.blockChip_verified
    (Manifest.pack_headerOk _ _ _ _ _ (Fips180.sha256_length _))
  have hleaves : LeavesRam zerosPastDram.blockChip
      (Image.ofFlash zerosPastDram.storage.memory).manifest 0 := by
    rw [hman]
    refine ⟨by omega, fun x h₁ h₂ => by omega, ?_⟩
    rw [hload]
    decide
  rcases restart_hangs_iff zerosPastDram.blockChip zerosPastDram.storage (fun _ => 3) 0 rfl rfl
    hverified (by rw [hman, hload]; decide) hleaves blankReset Host.ready_reset rfl with
    ⟨s', hrun, htrap, hnever⟩
  rw [hman, hload] at hrun htrap
  refine ⟨s', hrun, htrap, (hnever (fun _ => 3)).mpr ?_⟩
  rw [hman, hsize]
  decide

end SecureBoot.Bootrom
