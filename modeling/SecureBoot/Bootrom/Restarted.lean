import SecureBoot.Bootrom.Restart

/-!
# Boot after boot

What BootROM reads after store faults. The words of the payload that nobody took come first, then
the flash from its first byte on: the boot is the boot of another image.
-/

namespace SecureBoot.Bootrom

open Words Exec Relational Spi

variable (soc : Soc Host) (f : Storage) (gap : Nat → Nat) {patience : Nat}

/-! ## An image behind words left -/

/-- The image that BootROM reads when `left` comes before the flash. -/
def Image.behind (f : Storage) (left : List Word) : Image := .ofFlash (shifted left f.memory)

/-- The first word left stands where the magic should be. -/
theorem Image.behind_magic (w : Word) (left : List Word) :
    (Image.behind f (w :: left)).manifest.magic = w := by
  have hleft := shifted_left (w :: left) f.memory
  have hfirst : (shifted (w :: left) f.memory).read 0 96 =
      leBytes w ++ (shifted (w :: left) f.memory).read 4 92 := by
    have htake := congrArg (List.take 4) hleft
    rw [Memory.take_read, List.flatMap_cons, List.take_left' (leBytes_length w),
      Nat.min_eq_left (by rw [List.length_cons]; omega)] at htake
    rw [← htake]
    exact Memory.read_add _ 0 4 92
  have hbytes : (Image.behind f (w :: left)).manifest.bytes = _ := hfirst
  rw [Manifest.magic, Manifest.word, hbytes]
  exact leWord_byteAt w

/-- The boot parts lie behind each other in the flash, and so do the transactions. -/
theorem continues_parts (hport : soc.port = Host.port f gap patience)
    (hpatience : Block.drainCycles ≤ patience) {left : List Word}
    (hroom : left.length ≤ Block.fifoDepth) {q : Host} (hq : q.Lags f left) :
    ∃ q₁ q₂ q₃,
      soc.port.Serves MAX_SPIN MANIFEST_OFFSET MANIFEST_SIZE q
        (Image.behind f left).manifest.bytes q₁ ∧
      soc.port.Serves MAX_SPIN SIGNATURE_OFFSET SIGNATURE_SIZE q₁
        (Image.behind f left).signature q₂ ∧
      soc.port.Serves MAX_SPIN PUBLIC_KEY_OFFSET PUBLIC_KEY_SIZE q₂
        (Image.behind f left).publicKey q₃ ∧
      q₃.Continues f left 0xC0 := by
  rcases hq.continues.serves gap hpatience hroom MAX_SPIN (by decide) MANIFEST_OFFSET MANIFEST_SIZE
    rfl (by decide) with ⟨q₁, h₁, hq₁⟩
  rcases (hq₁ rfl).serves gap hpatience hroom MAX_SPIN (by decide) SIGNATURE_OFFSET SIGNATURE_SIZE
    rfl (by decide) with ⟨q₂, h₂, hq₂⟩
  rcases (hq₂ rfl).serves gap hpatience hroom MAX_SPIN (by decide) PUBLIC_KEY_OFFSET PUBLIC_KEY_SIZE
    rfl (by decide) with ⟨q₃, h₃, hq₃⟩
  rw [hport]
  exact ⟨q₁, q₂, q₃, h₁, h₂, h₃, hq₃ rfl⟩

theorem Image.servedBy_lags (hport : soc.port = Host.port f gap patience)
    (hpatience : Block.drainCycles ≤ patience) {left : List Word}
    (hroom : left.length ≤ Block.fifoDepth) {q : Host} (hq : q.Lags f left) :
    (Image.behind f left).ServedBy soc q := by
  rcases continues_parts soc f gap hport hpatience hroom hq with ⟨q₁, q₂, q₃, h₁, h₂, h₃, hq₃⟩
  refine ⟨q₁, q₂, q₃, h₁, h₂, h₃, fun _ hguard => ?_⟩
  have hsize : (Image.behind f left).manifest.word PAYLOAD_SIZE ≠ 0 :=
    fun hzero => hguard (.inl ((payloadSize_eq_zero_iff _).mpr hzero))
  rcases hq₃.serves gap hpatience hroom MAX_SPIN (by decide) KERNEL_OFFSET _ rfl hsize with
    ⟨q₄, h₄, _⟩
  rw [hport]
  exact ⟨q₄, h₄⟩

/-- Stage 0 takes that word for the magic. -/
theorem bootromMain_lags_refused (hport : soc.port = Host.port f gap patience)
    (hpatience : Block.drainCycles ≤ patience) {w : Word} {left : List Word}
    (hroom : (w :: left).length ≤ Block.fifoDepth) (hw : w ≠ MANIFEST_MAGIC)
    (s : Machine (Devices Host)) (hs : s.dev.spi.Lags f (w :: left)) :
    ∃ q, bootromMain soc.platform s = .error .recovery (recoveryState soc.platform
      SR_MANIFEST_HEADER (withParts (Image.behind f (w :: left)) q s)) := by
  rcases continues_parts soc f gap hport hpatience hroom hs with ⟨q₁, q₂, q₃, h₁, h₂, h₃, _⟩
  have hparts := readBootParts_serves soc (Image.behind f (w :: left)) s q₁ q₂ q₃ h₁ h₂ h₃
  have hrefused :
      ¬ (Manifest.ofMem (withParts (Image.behind f (w :: left)) q₃ s).mem).HeaderOk := by
    rw [withParts, Image.ofMem_partsMem]
    intro hheader
    exact hw ((Image.behind_magic f w left).symm.trans hheader.1)
  refine ⟨q₃, ?_⟩
  rw [bootromMain_eq, bind_of_ok hparts]
  exact afterParts_header soc _ hrefused

/-! ## The next fault -/

/-- The words that stay behind when a payload, read behind `left`, faults after `k` bytes. -/
def unread (f : Storage) (left : List Word) (k : Nat) : List Word :=
  (leWords ((shifted left f.memory).read 0xC0 (4 * left.length)) ++
    pack f 0xC0 (Image.behind f left).manifest.payloadSize).drop (k / 4 + 1)

/-- The payload behind `left` is signed, and its load range leaves memory after `k` bytes. -/
structure FaultsAfter (soc : Soc Host) (f : Storage) (left : List Word) (k : Nat) : Prop where
  room : left.length ≤ Block.fifoDepth
  verified : (Image.behind f left).Verified soc
  load : DRAM_BASE ≤ (Image.behind f left).manifest.loadAddress
  leaves : LeavesRam soc (Image.behind f left).manifest k

theorem leWords_flatMap_leBytes (ws : List Word) : leWords (ws.flatMap leBytes) = ws := by
  induction ws with
  | nil => rfl
  | cons w ws ih =>
      have hcons : leWords ((w :: ws).flatMap leBytes) =
          leWord (byteAt w 0) (byteAt w 1) (byteAt w 2) (byteAt w 3) ::
            leWords (ws.flatMap leBytes) := rfl
      rw [hcons, leWord_byteAt, ih]

/-- A boot behind words left faults as its image says, and leaves words behind again. -/
theorem bootromMain_lags_faults (hport : soc.port = Host.port f gap patience)
    (hpatience : Block.drainCycles ≤ patience) {left : List Word} {k : Nat}
    (hfaults : FaultsAfter soc f left k) (s : Machine (Devices Host))
    (hs : s.dev.spi.Lags f left) :
    ∃ s', bootromMain soc.platform s =
        .error (.fault ((Image.behind f left).manifest.loadAddress + k)) s' ∧
      s'.mtvec = s.mtvec ∧ s'.dev.spi.Lags f (unread f left k) := by
  rcases hfaults with ⟨hroom, hverified, hload, hleaves⟩
  rcases continues_parts soc f gap hport hpatience hroom hs with
    ⟨q₁, q₂, q₃, h₁, h₂, h₃, ws, hlags, hws⟩
  have hlength := Host.continues_length hws
  rcases hlags.start gap hpatience (by omega) KERNEL_OFFSET _ hleaves.payload with ⟨hhung, hstream⟩
  rw [← hport] at hhung hstream
  have hin := hleaves.inside
  have hunread : unread f left k =
      (ws ++ pack f 0xC0 (Image.behind f left).manifest.payloadSize).drop (k / 4 + 1) := by
    rw [unread, ← hws, leWords_flatMap_leBytes]
  rw [hunread]
  refine bootromMain_faults soc f gap patience hport hverified hload hleaves ?_ s
    ⟨q₁, q₂, q₃, h₁, h₂, h₃, hhung, hstream⟩
  rw [List.length_append, pack_length, wordCount]
  omega

/-! ## Any number of faults -/

/-- A hart at `_start` with `left` words in the SPI block: at first on a ready block, later after
boots that ended in a store fault. -/
inductive Restarted (soc : Soc Host) (f : Storage) : List Word → Machine (Devices Host) → Prop
  | first (s : Machine (Devices Host)) (hready : s.dev.spi.Ready) : Restarted soc f [] s
  | again (left : List Word) (k : Nat) (e : Exit) (s s' u : Machine (Devices Host))
      (hprior : Restarted soc f left s) (hfaults : FaultsAfter soc f left k)
      (hrun : bootromMain soc.platform s = .error e s') (hspi : u.dev.spi = s'.dev.spi) :
      Restarted soc f (unread f left k) u

theorem Restarted.lags (hport : soc.port = Host.port f gap patience)
    (hpatience : Block.drainCycles ≤ patience) {left : List Word} {s : Machine (Devices Host)}
    (h : Restarted soc f left s) : s.dev.spi.Lags f left := by
  induction h with
  | first s hready => exact hready.lags
  | again left k e s s' u _ hfaults hrun hspi ih =>
      rcases bootromMain_lags_faults soc f gap hport hpatience hfaults s ih with
        ⟨t, hfault, _, hlags⟩
      rw [hfault] at hrun
      cases hrun
      rwa [hspi]

/-- After any number of store faults BootROM either hangs on its first flash command, if more words
are left than the FIFO holds, or boots as on a flash that answers at once and holds the words left
before its own bytes. Unless the first of them is the magic, that boot ends in Stage 0. -/
theorem restarted_boots (hport : soc.port = Host.port f gap patience)
    (hpatience : Block.drainCycles ≤ patience) (left : List Word) (s : Machine (Devices Host))
    (h : Restarted soc f left s) :
    (∀ gap', NeverStarts f gap' s.dev.spi ↔ Block.fifoDepth < left.length) ∧
      (left.length ≤ Block.fifoDepth → ∀ ideal : Soc IdealFlash, Variant soc ideal →
        ideal.port = IdealFlash.port (shifted left f.memory) →
        ((Image.behind f left).Verified soc → (Image.behind f left).PlainLoad) →
        ∀ t, Alike s t →
          Match Alike Alike (bootromMain soc.platform s) (bootromMain ideal.platform t)) ∧
      ∀ w rest, left = w :: rest → left.length ≤ Block.fifoDepth → w ≠ MANIFEST_MAGIC →
        ∃ q, bootromMain soc.platform s = .error .recovery (recoveryState soc.platform
          SR_MANIFEST_HEADER (withParts (Image.behind f left) q s)) := by
  have hlags := h.lags soc f gap hport hpatience
  refine ⟨fun gap' => hlags.start_hangs_iff gap' _ _ (by decide), ?_, ?_⟩
  · intro hroom ideal hsoc hideal hplain t hst
    exact bootromMain_alike hsoc _ s t hst
      (Image.servedBy_lags soc f gap hport hpatience hroom hlags)
      (Image.ofFlash_ideal ideal _ hideal _) hplain
  · intro w rest hleft hroom hw
    subst hleft
    exact bootromMain_lags_refused soc f gap hport hpatience hroom hw s hlags

/-! ### Kernels for the end of DRAM -/

/-- The chip of an image, with a router that waits for as long as it takes. -/
def Image.patientChip (I : Image) : Soc Host :=
  { I.blockChip with port := Host.port I.storage (fun _ => 3) Block.drainCycles }

theorem Image.patientChip_verified (I : Image) (h : I.manifest.HeaderOk) :
    (Image.ofFlash I.storage.memory).Verified I.patientChip :=
  I.blockChip_verified h

/-- The next boot starts from what this one leaves. -/
def reboot (soc : Soc Host) (s : Machine (Devices Host)) : Machine (Devices Host) :=
  match bootromMain soc.platform s with
  | .ok _ s' => s'
  | .error _ s' => s'

def reboots (soc : Soc Host) (s : Machine (Devices Host)) : Nat → Machine (Devices Host)
  | 0 => s
  | n + 1 => reboot soc (reboots soc s n)

theorem reboot_of_error {s s' : Machine (Devices Host)} {e : Exit}
    (h : bootromMain soc.platform s = .error e s') : reboot soc s = s' := by
  rw [reboot, h]

/-- A payload behind the last byte of DRAM faults with its first byte. -/
theorem Image.leavesRam_pastDram (I : Image) (hload : I.manifest.loadAddress = 0x90000000)
    (hsize : 0 < I.manifest.payloadSize) :
    LeavesRam I.patientChip (Image.ofFlash I.storage.memory).manifest 0 := by
  rw [I.storage_parts.1]
  refine ⟨hsize, fun x h₁ h₂ => by omega, ?_⟩
  rw [hload]
  exact (by decide : (inDram 0x90000000 || inWindows 0x90000000) = false)

/-- Two words of zeros, signed for the address behind the last one of DRAM. -/
def twoWordsPastDram : Image :=
  .firmware 1 0x90000000 0x90000000 (List.replicate 8 0) (List.replicate 8 0)
    (ofHex 32 0x06520e3db31c9b71580dfca969ecf36c0515e1847a2d4f0d54960c252ee66072 ++
      ofHex 32 0x515d6c64ec4f905e788b7b40c8beebe9f1bbfe8aeec0c7e3b4367bac691b1c0b) (by decide)

theorem twoWordsPastDram_unread : unread twoWordsPastDram.storage [] 0 = [0] := by
  have hman := twoWordsPastDram.storage_parts.1
  have hsize : twoWordsPastDram.manifest.payloadSize = 8 := by simp [twoWordsPastDram]
  have hpayload : twoWordsPastDram.flash.read 0xC0 8 = List.replicate 8 0 :=
    twoWordsPastDram.flash_payload 8 rfl
  have hread : twoWordsPastDram.storage.memory.read 0xC0 8 = List.replicate 8 0 :=
    (Memory.read_congr fun i hi => twoWordsPastDram.storage_memory (0xC0 + i) (by omega)).trans
      hpayload
  have hpack : pack twoWordsPastDram.storage 0xC0 8 = [0, 0] := by
    have hbytes : pack twoWordsPastDram.storage 0xC0 8 =
        leWords (twoWordsPastDram.storage.memory.read 0xC0 8 ++ List.replicate 0 0) := rfl
    rw [hbytes, hread]
    decide
  rw [unread, Image.behind, shifted_nil, hman, hsize, hpack]
  rfl

theorem twoWordsPastDram_boots : ∃ q, bootromMain twoWordsPastDram.patientChip.platform
    (reboot twoWordsPastDram.patientChip blankReset) =
      .error .recovery (recoveryState twoWordsPastDram.patientChip.platform SR_MANIFEST_HEADER
        (withParts (Image.behind twoWordsPastDram.storage [0]) q
          (reboot twoWordsPastDram.patientChip blankReset))) := by
  have hman := twoWordsPastDram.storage_parts.1
  have hbehind : Image.behind twoWordsPastDram.storage [] =
      .ofFlash twoWordsPastDram.storage.memory := by rw [Image.behind, shifted_nil]
  have hload : twoWordsPastDram.manifest.loadAddress = 0x90000000 := by simp [twoWordsPastDram]
  have hsize : twoWordsPastDram.manifest.payloadSize = 8 := by simp [twoWordsPastDram]
  have hverified := twoWordsPastDram.patientChip_verified
    (Manifest.pack_headerOk _ _ _ _ _ (Fips180.sha256_length _))
  have hleaves := twoWordsPastDram.leavesRam_pastDram hload (by omega)
  have hafter : FaultsAfter twoWordsPastDram.patientChip twoWordsPastDram.storage [] 0 := by
    refine ⟨Nat.zero_le _, by rwa [hbehind], ?_, by rwa [hbehind]⟩
    rw [hbehind, hman, hload]
    decide
  rcases bootromMain_lags_faults twoWordsPastDram.patientChip twoWordsPastDram.storage
    (fun _ => 3) rfl (Nat.le_refl _) hafter blankReset Host.ready_reset.lags with ⟨s', hrun, _, _⟩
  have hagain := Restarted.again [] 0 _ blankReset s'
    (reboot twoWordsPastDram.patientChip blankReset) (.first blankReset Host.ready_reset) hafter
    hrun (by rw [reboot_of_error _ hrun])
  rw [twoWordsPastDram_unread] at hagain
  exact (restarted_boots twoWordsPastDram.patientChip twoWordsPastDram.storage (fun _ => 3) rfl
    (Nat.le_refl _) [0] _ hagain).2.2 0 [] rfl (by decide) (by decide)

/-- If the word that faults is the last one of the payload, nothing is left, and BootROM restarts
forever: with a load address not below DRAM and a router that lets the block drain. -/
theorem restarts_forever (hport : soc.port = Host.port f gap patience)
    (hpatience : Block.drainCycles ≤ patience) {I : Image} (hflash : I = .ofFlash f.memory)
    {k : Nat} (hverified : I.Verified soc) (hload : DRAM_BASE ≤ I.manifest.loadAddress)
    (hleaves : LeavesRam soc I.manifest k) (hlast : wordCount I.manifest.payloadSize = k / 4 + 1)
    (u : Nat → Machine (Devices Host)) (hready : (u 0).dev.spi.Ready) (hmtvec : (u 0).mtvec = START)
    (hnext : ∀ n e s', bootromMain soc.platform (u n) = .error e s' →
      (u (n + 1)).dev.spi = s'.dev.spi ∧ (u (n + 1)).mtvec = s'.mtvec) (n : Nat) :
    ∃ s', bootromMain soc.platform (u n) = .error (.fault (I.manifest.loadAddress + k)) s' ∧
      Exit.continuesAt s' (.fault (I.manifest.loadAddress + k)) = some START := by
  have hsame : Image.behind f [] = I := by rw [Image.behind, shifted_nil, hflash]
  have hnone : unread f [] k = [] := by
    rw [unread, hsame, List.drop_eq_nil_iff, List.length_append, pack_length, hlast]
    exact Nat.le_of_eq (Nat.zero_add _)
  have hafter : FaultsAfter soc f [] k :=
    ⟨Nat.zero_le _, by rwa [hsame], by rwa [hsame], by rwa [hsame]⟩
  have hfaults := bootromMain_lags_faults soc f gap hport hpatience hafter
  rw [hsame, hnone] at hfaults
  have hinvariant : (u n).dev.spi.Lags f [] ∧ (u n).mtvec = START := by
    induction n with
    | zero => exact ⟨hready.lags, hmtvec⟩
    | succ n ih =>
        rcases hfaults (u n) ih.1 with ⟨s', hrun, htrap, hlags⟩
        rcases hnext n _ s' hrun with ⟨hspi, hkept⟩
        exact ⟨by rwa [hspi], by rw [hkept, htrap, ih.2]⟩
  rcases hfaults (u n) hinvariant.1 with ⟨s', hrun, htrap, _⟩
  refine ⟨s', hrun, ?_⟩
  rw [Exit.continuesAt, htrap, hinvariant.2]

theorem pastDram_forever : ∃ s', bootromMain pastDram.patientChip.platform
      (reboots pastDram.patientChip blankReset 2) = .error (.fault 0x90000000) s' ∧
    Exit.continuesAt s' (.fault 0x90000000) = some START := by
  have hman := pastDram.storage_parts.1
  have hload : pastDram.manifest.loadAddress = 0x90000000 := by simp [pastDram]
  have hsize : pastDram.manifest.payloadSize = 4 := by simp [pastDram]
  have hverified := pastDram.patientChip_verified
    (Manifest.pack_headerOk _ _ _ _ _ (Fips180.sha256_length _))
  have hnext : ∀ n e s', bootromMain pastDram.patientChip.platform
      (reboots pastDram.patientChip blankReset n) = .error e s' →
        (reboots pastDram.patientChip blankReset (n + 1)).dev.spi = s'.dev.spi ∧
          (reboots pastDram.patientChip blankReset (n + 1)).mtvec = s'.mtvec := by
    intro n e s' hrun
    rw [reboots, reboot_of_error _ hrun]
    exact ⟨rfl, rfl⟩
  have hlast : wordCount (Image.ofFlash pastDram.storage.memory).manifest.payloadSize =
      0 / 4 + 1 := by
    rw [hman, hsize]
    decide
  have hfault := restarts_forever pastDram.patientChip pastDram.storage (fun _ => 3) rfl
    (Nat.le_refl _) rfl hverified (by rw [hman, hload]; decide)
    (pastDram.leavesRam_pastDram hload (by omega)) hlast (reboots pastDram.patientChip blankReset)
    Host.ready_reset rfl hnext 2
  rw [hman, hload] at hfault
  exact hfault

end SecureBoot.Bootrom
