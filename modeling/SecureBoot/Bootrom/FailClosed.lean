import SecureBoot.Bootrom.Outcome
import SecureBoot.Bootrom.Provision

/-!
# Failing closed

What a failed boot leaves behind: the recovery image in DRAM, and the address
at which the hart continues.
-/

namespace SecureBoot.Bootrom

open Words Exec

variable {σ : Type} (soc : Soc σ)

/-! ## The recovery image -/

/-- Stage 3 does not write over the `len` bytes at the recovery entry. -/
def SparesRecovery (len : Nat) (M : Manifest) : Prop :=
  LoadRefused M ∨ ∀ x, LoadRange M x → ¬ Within RECOVERY_ENTRY len x

/-- Where a boot from `s` may have written when it enters recovery: to its own memory and, past
Stage 2, to the range of the accepted manifest. -/
def RecoveryArea {δ : Type} (p : Platform δ) (s : Machine δ) (x : Nat) : Prop :=
  BootArea x ∨ ∃ t, untilStage3 p s = .ok () t ∧ LateArea (Manifest.ofMem t.mem) x

/-- A manifest that spares the recovery image leaves it as it was. -/
theorem read_of_spared {δ : Type} {p : Platform δ} {s : Machine δ} {len : Nat}
    (hlen : RECOVERY_ENTRY + len ≤ BOOT_SCRATCH_BASE) {mem : Memory}
    (h : Memory.ChangedOnly (RecoveryArea p s) s.mem mem)
    (hspares : ∀ t, untilStage3 p s = .ok () t → SparesRecovery len (Manifest.ofMem t.mem)) :
    mem.read RECOVERY_ENTRY len = s.mem.read RECOVERY_ENTRY len := by
  have hboot : ∀ x, x < RECOVERY_ENTRY + len → ¬ BootArea x :=
    fun x hx h => Nat.not_lt.mpr (Nat.le_trans hlen h.1) hx
  apply h.read_eq
  intro x h₁ h₂ hx
  rcases hx with hx | ⟨t, ht, hx | ⟨hguard, hx⟩⟩
  · exact hboot x h₂ hx
  · exact hboot x h₂ hx
  · exact (hspares t ht).resolve_left hguard x hx ⟨h₁, h₂⟩

theorem recovery_changes {s s' : Machine (Devices σ)}
    (h : bootromMain soc.platform s = .error .recovery s') :
    s'.mepc = RECOVERY_ENTRY ∧
      Memory.ChangedOnly (RecoveryArea soc.platform s) s.mem s'.mem := by
  rcases (bootromMain_wp soc s).error h with ⟨reason, s₁, hkept, _, hs'⟩ |
    ⟨t, hrun, _, hkept, hend⟩
  · subst hs'
    exact ⟨rfl, hkept.mem.mono fun x hx => .inl hx⟩
  · cases hend with
    | recovery reason s₁ hkept₁ =>
        exact ⟨rfl, (hkept.mem.mono fun x hx => .inl hx).trans
          (hkept₁.mem.mono fun x hx => .inr ⟨t, hrun, hx⟩)⟩

/-- Every boot into recovery whose accepted manifest, if it came to that, spares the recovery
image, runs the image that was in memory before. -/
theorem recovery_image_intact (len : Nat) (hlen : RECOVERY_ENTRY + len ≤ BOOT_SCRATCH_BASE)
    (s s' : Machine (Devices σ)) (h : bootromMain soc.platform s = .error .recovery s')
    (hspares : ∀ t, untilStage3 soc.platform s = .ok () t →
      SparesRecovery len (Manifest.ofMem t.mem)) :
    s'.mepc = RECOVERY_ENTRY ∧
      s'.mem.read RECOVERY_ENTRY len = s.mem.read RECOVERY_ENTRY len := by
  obtain ⟨hentry, hchanged⟩ := recovery_changes soc h
  exact ⟨hentry, read_of_spared hlen hchanged hspares⟩

theorem selfLoop_sparesRecovery (len : Nat) : SparesRecovery len selfLoop.manifest := by
  refine .inr fun x hx hin => ?_
  have haddr := addresses
  rw [LoadRange, selfLoop_load, selfLoop_size, Within] at hx
  rw [Within] at hin
  omega

theorem selfLoop_recovery_intact :
    ∃ s', bootromMain selfLoop.chip.platform (Image.atReset (fun _ => 0) 2) = .error .recovery s' ∧
      s'.mem.read RECOVERY_ENTRY 0x40000 =
        (Image.atReset (fun _ => 0) 2).mem.read RECOVERY_ENTRY 0x40000 := by
  obtain ⟨t, hrun⟩ := selfLoop_refused
  refine ⟨_, hrun, (recovery_image_intact selfLoop.chip 0x40000 (by decide) _ _ hrun ?_).2⟩
  intro t ht
  rw [selfLoop.chip_untilStage3 ht]
  exact selfLoop_sparesRecovery _

/-- A four-byte payload signed for the recovery entry; the flash delivers another one. -/
def overRecovery : Image :=
  .firmware 1 0x80100000 0x80100000 [0x6F, 0, 0, 0] [0x73, 0, 0, 0]
    (ofHex 32 0x64e9243d0eeb141e100351f7bc2a6833a45ccd649e66063b41ab4bacb2591d0c ++
      ofHex 32 0x22641e0aaefba00d81d417a8e3c3caae40a0dfd4378ae27b371dfa0b5e20c10d) (by decide)

theorem overRecovery_image_changed :
    ∃ s', bootromMain overRecovery.chip.platform (Image.atReset (fun _ => 0) 0) =
        .error .recovery s' ∧
      s'.mem.read RECOVERY_ENTRY 4 ≠ (Image.atReset (fun _ => 0) 0).mem.read RECOVERY_ENTRY 4 := by
  have hload : overRecovery.manifest.loadAddress = 0x80100000 := by simp [overRecovery]
  have hsize : overRecovery.manifest.payloadSize = 4 := by simp [overRecovery]
  have hhash : overRecovery.manifest.payloadHash = Fips180.sha256 [0x6F, 0, 0, 0] := by
    simp [overRecovery]
  have hplaced : overRecovery.Placed :=
    Image.placed_below hsize.symm (by omega) (by omega) (by rw [hload, hsize]; decide)
  obtain ⟨t, hloaded, hrun⟩ := hplaced.chip_loads (fun _ => 0) 0
    (Manifest.pack_headerOk _ _ _ _ _ (Fips180.sha256_length _))
  rw [hhash, if_neg (by decide +kernel)] at hrun
  refine ⟨_, hrun, ?_⟩
  have hpayload := hloaded.payload
  rw [hload, hsize] at hpayload
  show t.mem.read RECOVERY_ENTRY 4 ≠ _
  rw [show RECOVERY_ENTRY = 0x80100000 from rfl, hpayload]
  decide

/-! ## Leaving BootROM -/

/-- Where the hart continues: at `mepc` after an `mret`, at `mtvec` after an access fault. -/
def Exit.continuesAt {δ : Type} (s' : Machine δ) : Exit → Option Nat
  | kernel | recovery => some s'.mepc
  | fault _ => some s'.mtvec
  | halted => none

/-- The run left BootROM for the kernel or for recovery. -/
def LeavesBootrom (e : Exit) (s' : Machine (Devices σ)) : Prop :=
  (e = .kernel ∧ e.continuesAt s' = some 0x80000000) ∨
    (e = .recovery ∧ e.continuesAt s' = some RECOVERY_ENTRY)

/-- Stage 3 stays in DRAM, and does not overwrite the top byte of the payload size it reads again
afterwards. -/
def FaultFree (M : Manifest) : Prop :=
  LoadRefused M ∨ ((∀ x, LoadRange M x → inDram x = true) ∧
    ¬ LoadRange M (MANIFEST_BUFFER + PAYLOAD_SIZE + 3))

theorem payloadSize_ofMem (mem : Memory) :
    (Manifest.ofMem mem).payloadSize = (mem 0x8800000C).toNat + 256 * (mem 0x8800000D).toNat +
      65536 * (mem 0x8800000E).toNat + 16777216 * (mem 0x8800000F).toNat := by
  rw [Manifest.payloadSize, Manifest.ofMem_word _ _ (by decide), Memory.word, leWord_toNat]
  rfl

/-- The size read after a fault-free load still ends in DRAM, so the hash reads nothing else. -/
theorem FaultFree.hashed_ram {M : Manifest} {mem mem' : Memory} (h : FaultFree M)
    (hguard : ¬ LoadRefused M) (hman : Manifest.ofMem mem = M)
    (hmem : Memory.ChangedOnly (LoadRange M) mem mem') :
    soc.platform.RamRange M.loadAddress (Manifest.ofMem mem').payloadSize := by
  obtain ⟨hdram, htop⟩ := h.resolve_left hguard
  have haddr := addresses
  have hfield : MANIFEST_BUFFER + PAYLOAD_SIZE + 3 = 0x8800000F := rfl
  rw [hfield, LoadRange, Within] at htop
  unfold LoadRefused at hguard
  have hlast := (Soc.inDram_iff _).mp (hdram (M.loadAddress + M.payloadSize - 1) (by
    rw [LoadRange, Within]
    omega))
  have hsize := payloadSize_ofMem mem
  have hsize' := payloadSize_ofMem mem'
  rw [hman] at hsize
  have hout : ∀ a, ¬ (M.loadAddress ≤ a ∧ a < M.loadAddress + M.payloadSize) → mem' a = mem a :=
    fun a ha => hmem a ha
  have h₀ := (mem' 0x8800000C).isLt
  have h₁ := (mem' 0x8800000D).isLt
  have h₂ := (mem' 0x8800000E).isLt
  rw [hout 0x8800000F htop] at hsize'
  have hend : M.loadAddress + (Manifest.ofMem mem').payloadSize ≤ 0x90000000 := by
    by_cases habove : 0x8800000F < M.loadAddress
    · -- the whole field is below the range
      rw [hout 0x8800000C (by omega), hout 0x8800000D (by omega), hout 0x8800000E (by omega),
        ← hsize] at hsize'
      omega
    · -- the range ends by the top byte, which bounds the new size
      omega
  exact soc.ramRange _ _ (by omega) hend

/-- Every run whose accepted manifest, if it came to that, loads without faults leaves BootROM
for the kernel or for recovery. -/
theorem leaves_bootrom (s : Machine (Devices σ))
    (hfree : ∀ t, untilStage3 soc.platform s = .ok () t → FaultFree (Manifest.ofMem t.mem)) :
    ∃ e s', bootromMain soc.platform s = .error e s' ∧ LeavesBootrom e s' := by
  have hwp := bootromMain_wp soc s
  cases hrun : bootromMain soc.platform s with
  | ok _ s' => exact (hwp.ok hrun).elim
  | error e s' =>
      refine ⟨e, s', rfl, ?_⟩
      rcases hwp.error hrun with ⟨reason, s₁, _, he, hs'⟩ | ⟨t, hstages, _, _, hend⟩
      · subst he hs'
        exact .inr ⟨rfl, rfl⟩
      · have hlate := hfree t hstages
        cases hend with
        | kernel => exact .inl ⟨rfl, rfl⟩
        | recovery reason s₁ _ => exact .inr ⟨rfl, rfl⟩
        | storeFault x _ guards hx =>
            exact (soc.unmapped_of_ramRange
              (fun y h₁ h₂ => (hlate.resolve_left guards).1 y ⟨h₁, h₂⟩) hx).elim
        | loadFault x filled _ guards hkept hx =>
            exact (soc.unmapped_of_ramRange (hlate.hashed_ram soc guards rfl hkept.mem) hx).elim

theorem selfLoop_leaves :
    ∃ e s', bootromMain selfLoop.chip.platform (Image.atReset (fun _ => 0) 0) = .error e s' ∧
      LeavesBootrom e s' := by
  refine leaves_bootrom selfLoop.chip (Image.atReset (fun _ => 0) 0) ?_
  intro t ht
  rw [selfLoop.chip_untilStage3 ht]
  refine .inr ⟨fun x hx => ?_, fun hx => ?_⟩
  · rw [LoadRange, selfLoop_load, selfLoop_size, Within] at hx
    exact (Soc.inDram_iff x).mpr (by omega)
  · have haddr := addresses
    rw [LoadRange, selfLoop_load, selfLoop_size, Within] at hx
    omega

/-- A signed image for an address where nothing answers. -/
theorem chip_storeFault (I : Image) (mem : Memory) (counter : DWord)
    (hheader : I.manifest.HeaderOk) (hlen : I.payload.length = I.manifest.payloadSize)
    (hpos : 0 < I.manifest.payloadSize) (hload : 0x90000000 ≤ I.manifest.loadAddress)
    (hmmio : inWindows I.manifest.loadAddress = false) :
    ∃ s', bootromMain I.chip.platform (Image.atReset mem counter) =
      .error (.fault I.manifest.loadAddress) s' ∧ s'.mtvec = START := by
  have haddr := addresses
  have hguard : ¬ LoadRefused I.manifest := by
    unfold LoadRefused
    omega
  have hram : inDram I.manifest.loadAddress = false := by
    rw [Bool.eq_false_iff, ne_eq, Soc.inDram_iff]
    omega
  obtain ⟨mem₁, q, v, hman, _, hpayload, hrun⟩ := bootromMain_verified I.chip I
    (Image.atReset mem counter) (I.chip_serves hlen _) (I.chip_verified hheader)
  obtain ⟨q', hserves⟩ := hpayload hguard
  generalize hs : ({ Image.atReset mem counter with
    mem := mem₁
    dev := { (Image.atReset mem counter).dev with spi := q, ed25519 := v } } :
      Machine (Devices IdealFlash)) = s at hrun
  have hman' : Manifest.ofMem s.mem = I.manifest := by
    rw [← hs]
    exact hman
  have hspi : s.dev.spi = q := by rw [← hs]
  have hmtvec : s.mtvec = START := by
    rw [← hs]
    rfl
  obtain ⟨d₁, hread⟩ := readFlash_serves_fault I.chip.platform KERNEL_OFFSET
    (I.manifest.word PAYLOAD_SIZE) I.manifest.loadAddress s I.payload _ hpos hram hmmio
    ((hspi ▸ hserves).lift (I.chip.embeds s.dev))
  refine ⟨{ s with dev := d₁ }, ?_, hmtvec⟩
  have hstage : checkAndLoadKernel I.chip.platform MANIFEST_BUFFER s =
      .error (.fault I.manifest.loadAddress) { s with dev := d₁ } := by
    rw [checkAndLoadKernel_load I.chip s (by rwa [hman']), hman']
    exact bind_of_error hread _
  rw [hrun, afterVerify]
  exact bind_of_error hstage _

/-- The one-instruction kernel, signed for the end of DRAM. -/
def pastDram : Image :=
  .firmware 1 0x90000000 0x90000000 [0x6F, 0, 0, 0] [0x6F, 0, 0, 0]
    (ofHex 32 0x1043d70a836e334c9ffec3b6b253620286dd205314545fcf7948906da3c7fddd ++
      ofHex 32 0x85512c819c7847a44b24e6d8a6ca7d544ee4d70b19c56a293d7491f37ca0fc06) (by decide)

/-- The hart takes the store fault to `_start`. -/
theorem pastDram_restarts :
    ∃ e s', bootromMain pastDram.chip.platform (Image.atReset (fun _ => 0) 0) = .error e s' ∧
      e.continuesAt s' = some START ∧ ¬ LeavesBootrom e s' := by
  have hload : pastDram.manifest.loadAddress = 0x90000000 := by simp [pastDram]
  have hsize : pastDram.manifest.payloadSize = 4 := by simp [pastDram]
  obtain ⟨s', hrun, hmtvec⟩ := chip_storeFault pastDram (fun _ => 0) 0
    (Manifest.pack_headerOk _ _ _ _ _ (Fips180.sha256_length _)) hsize.symm (by omega)
    (by omega) (by rw [hload]; decide)
  refine ⟨_, s', hrun, congrArg some hmtvec, ?_⟩
  intro hleaves
  rcases hleaves with ⟨h, _⟩ | ⟨h, _⟩
  · cases h
  · cases h

end SecureBoot.Bootrom
