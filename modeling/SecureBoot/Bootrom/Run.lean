import SecureBoot.Bootrom.Handoff

/-!
# Whole runs of `bootrom_main`

A run is cut where the SPI port is involved: the three reads of the boot
parts, and the read of the payload. Between the cuts the run is an equation.
-/

namespace SecureBoot.Bootrom

open Words Exec

variable {σ : Type} (soc : Soc σ)

/-! ## Cuts -/

def afterVerify {δ : Type} (p : Platform δ) : Boot δ Unit := do
  checkAndLoadKernel p MANIFEST_BUFFER
  afterLoad p

def afterParts {δ : Type} (p : Platform δ) : Boot δ Unit := do
  checkManifestHeader p MANIFEST_BUFFER
  checkPublicKey p
  checkManifestSignature p
  afterVerify p

theorem bootromMain_eq {δ : Type} (p : Platform δ) :
    bootromMain p = readBootParts p >>= fun _ => afterParts p := rfl

/-! ## Verification -/

/-- The three checks of Stages 0 to 2 on what the buffers hold. -/
def KeyOk (mem : Memory) : Prop :=
  Fips180.sha256 (mem.read PUBLIC_KEY_BUFFER 32) = soc.otpHash.toList

def SignatureOk (mem : Memory) : Prop := soc.script (stagedFiles mem) = true

theorem keyScratch_kept {mem mem' : Memory} (h : Memory.ChangedOnly KeyScratch mem mem')
    (a n : Nat) (hn : a + n ≤ 0x88000300) : mem'.read a n = mem.read a n := by
  apply h.read_eq
  intro x h₁ h₂ hx
  rw [keyScratch_iff] at hx
  omega

theorem stagedFiles_kept {mem mem' : Memory} (h : Memory.ChangedOnly KeyScratch mem mem') :
    stagedFiles mem' = stagedFiles mem := by
  rw [stagedFiles, stagedFiles, keyScratch_kept h _ _ (by decide),
    keyScratch_kept h _ _ (by decide), keyScratch_kept h _ _ (by decide)]

theorem manifest_kept {mem mem' : Memory} (h : Memory.ChangedOnly KeyScratch mem mem') :
    Manifest.ofMem mem' = Manifest.ofMem mem :=
  Manifest.ofMem_congr (keyScratch_kept h _ _ (by decide))

theorem afterParts_header (s : Machine (Devices σ)) (h : ¬ (Manifest.ofMem s.mem).HeaderOk) :
    afterParts soc.platform s =
      .error .recovery (recoveryState soc.platform SR_MANIFEST_HEADER s) := by
  rw [afterParts, bind_of_error (checkManifestHeader_refuses soc s h)]

theorem afterParts_key (s : Machine (Devices σ)) (h : (Manifest.ofMem s.mem).HeaderOk)
    (hkey : ¬ KeyOk soc s.mem) :
    ∃ mem, Memory.ChangedOnly KeyScratch s.mem mem ∧
      afterParts soc.platform s =
        .error .recovery (recoveryState soc.platform SR_PUBLIC_KEY { s with mem := mem }) := by
  obtain ⟨mem, hmem, heq⟩ := checkPublicKey_eq soc s
  unfold KeyOk at hkey
  rw [if_neg hkey] at heq
  refine ⟨mem, hmem, ?_⟩
  rw [afterParts, bind_of_ok (checkManifestHeader_accepts soc s h), bind_of_error heq]

/-- Once the key is accepted, the script decides. -/
theorem afterParts_script (s : Machine (Devices σ)) (h : (Manifest.ofMem s.mem).HeaderOk)
    (hkey : KeyOk soc s.mem) :
    ∃ mem v, Memory.ChangedOnly KeyScratch s.mem mem ∧
      afterParts soc.platform s =
        if soc.script (stagedFiles s.mem) then
          afterVerify soc.platform { s with mem := mem, dev := { s.dev with ed25519 := v } }
        else .error .recovery (recoveryState soc.platform SR_MANIFEST_SIGNATURE
          { s with mem := mem, dev := { s.dev with ed25519 := v } }) := by
  obtain ⟨mem, hmem, heq⟩ := checkPublicKey_eq soc s
  unfold KeyOk at hkey
  rw [if_pos hkey] at heq
  obtain ⟨v, hv⟩ := checkManifestSignature_eq soc { s with mem := mem }
  rw [stagedFiles_kept hmem] at hv
  refine ⟨mem, v, hmem, ?_⟩
  rw [afterParts, bind_of_ok (checkManifestHeader_accepts soc s h), bind_of_ok heq]
  by_cases hscript : soc.script (stagedFiles s.mem) = true
  · rw [if_pos hscript] at hv ⊢
    rw [bind_of_ok hv]
  · rw [if_neg hscript] at hv ⊢
    rw [bind_of_error hv]

theorem afterParts_signature (s : Machine (Devices σ)) (h : (Manifest.ofMem s.mem).HeaderOk)
    (hkey : KeyOk soc s.mem) (hsig : ¬ SignatureOk soc s.mem) :
    ∃ mem v, Memory.ChangedOnly KeyScratch s.mem mem ∧
      afterParts soc.platform s =
        .error .recovery (recoveryState soc.platform SR_MANIFEST_SIGNATURE
          { s with mem := mem, dev := { s.dev with ed25519 := v } }) := by
  obtain ⟨mem, v, hmem, heq⟩ := afterParts_script soc s h hkey
  unfold SignatureOk at hsig
  exact ⟨mem, v, hmem, heq.trans (if_neg hsig)⟩

/-- Past the signature only the hash buffers, the frames and the verifier have changed. -/
theorem afterParts_verified (s : Machine (Devices σ)) (h : (Manifest.ofMem s.mem).HeaderOk)
    (hkey : KeyOk soc s.mem) (hsig : SignatureOk soc s.mem) :
    ∃ mem v, Memory.ChangedOnly KeyScratch s.mem mem ∧
      afterParts soc.platform s =
        afterVerify soc.platform { s with mem := mem, dev := { s.dev with ed25519 := v } } := by
  obtain ⟨mem, v, hmem, heq⟩ := afterParts_script soc s h hkey
  unfold SignatureOk at hsig
  exact ⟨mem, v, hmem, heq.trans (if_pos hsig)⟩

/-! ## The load -/

/-- Stage 3 rejects a manifest without reading the payload. -/
def LoadRefused (M : Manifest) : Prop := M.payloadSize = 0 ∨ M.loadAddress < DRAM_BASE

/-- The range a manifest asks to load. -/
def LoadRange (M : Manifest) (x : Nat) : Prop := Within M.loadAddress M.payloadSize x

theorem checkAndLoadKernel_guards {δ : Type} (p : Platform δ)
    (hscratch : p.RamRange BOOT_SCRATCH_BASE 0x10000) (s : Machine δ) :
    checkAndLoadKernel p MANIFEST_BUFFER s =
      (recoverIf p (decide ((Manifest.ofMem s.mem).word PAYLOAD_SIZE = 0)) SR_LOAD_KERNEL >>=
          fun _ =>
        recoverIf p (decide ((Manifest.ofMem s.mem).loadAddress < DRAM_BASE)) SR_LOAD_KERNEL >>=
          fun _ =>
        readFlash p KERNEL_OFFSET ((Manifest.ofMem s.mem).word PAYLOAD_SIZE)
          (Manifest.ofMem s.mem).loadAddress >>= fun _ =>
        verifyPayload p MANIFEST_BUFFER (Manifest.ofMem s.mem).loadAddress) s := by
  rw [checkAndLoadKernel, bind_of_ok (loadWord_ram p _ s (hscratch.mono (by decide) (by decide))),
    bind_of_ok (loadWord_ram p _ s (hscratch.mono (by decide) (by decide))),
    Manifest.loadAddress, Manifest.ofMem_word _ _ (by decide), Manifest.ofMem_word _ _ (by decide)]

theorem payloadSize_eq_zero_iff (M : Manifest) :
    M.payloadSize = 0 ↔ M.word PAYLOAD_SIZE = 0 := by
  constructor
  · intro h
    exact BitVec.eq_of_toNat_eq h
  · intro h
    rw [Manifest.payloadSize, h]
    rfl

theorem checkAndLoadKernel_refused {δ : Type} (p : Platform δ)
    (hscratch : p.RamRange BOOT_SCRATCH_BASE 0x10000) (s : Machine δ)
    (h : LoadRefused (Manifest.ofMem s.mem)) :
    checkAndLoadKernel p MANIFEST_BUFFER s =
      .error .recovery (recoveryState p SR_LOAD_KERNEL s) := by
  rw [checkAndLoadKernel_guards p hscratch]
  by_cases hsize : (Manifest.ofMem s.mem).word PAYLOAD_SIZE = 0
  · exact bind_of_error (recoverIf_true p SR_LOAD_KERNEL s (decide_eq_true hsize)) _
  · have hload : (Manifest.ofMem s.mem).loadAddress < DRAM_BASE :=
      h.resolve_left fun h₀ => hsize ((payloadSize_eq_zero_iff _).mp h₀)
    rw [bind_of_ok (recoverIf_false p SR_LOAD_KERNEL s (decide_eq_false hsize))]
    exact bind_of_error (recoverIf_true p SR_LOAD_KERNEL s (decide_eq_true hload)) _

theorem checkAndLoadKernel_load (s : Machine (Devices σ))
    (h : ¬ LoadRefused (Manifest.ofMem s.mem)) :
    checkAndLoadKernel soc.platform MANIFEST_BUFFER s =
      (readFlash soc.platform KERNEL_OFFSET ((Manifest.ofMem s.mem).word PAYLOAD_SIZE)
          (Manifest.ofMem s.mem).loadAddress >>= fun _ =>
        verifyPayload soc.platform MANIFEST_BUFFER (Manifest.ofMem s.mem).loadAddress) s := by
  have hsize : ¬ (Manifest.ofMem s.mem).word PAYLOAD_SIZE = 0 :=
    fun h₀ => h (.inl ((payloadSize_eq_zero_iff _).mpr h₀))
  have hload : ¬ (Manifest.ofMem s.mem).loadAddress < DRAM_BASE := fun h₀ => h (.inr h₀)
  rw [checkAndLoadKernel_guards soc.platform soc.scratchRam,
    bind_of_ok (recoverIf_false soc.platform SR_LOAD_KERNEL s (decide_eq_false hsize)),
    bind_of_ok (recoverIf_false soc.platform SR_LOAD_KERNEL s (decide_eq_false hload))]

/-! ## Frames of a run -/

/-- Scratch buffers, stack frames and what lies between them. -/
def BootArea (x : Nat) : Prop := 0x88000000 ≤ x ∧ x < 0x88010000

theorem keyScratch_bootArea (x : Nat) (h : KeyScratch x) : BootArea x := by
  rw [keyScratch_iff] at h
  unfold BootArea
  omega

theorem hashScratch_bootArea (x : Nat) (h : HashScratch x) : BootArea x := by
  rw [hashScratch_iff] at h
  unfold BootArea
  omega

/-- One of the three small reads: it stays in the boot area and cannot fault. -/
theorem readFlash_bootArea (offset total : Word) (output : Nat) (s : Machine (Devices σ))
    (h₁ : 0x88000000 ≤ output) (h₂ : output + total.toNat ≤ 0x88010000) :
    Wp (readFlash soc.platform offset total output)
      (fun _ s' => Kept BootArea Soc.others s s')
      (Failed soc.platform BootArea (fun _ => False) Soc.others SR_LOAD_KERNEL s) s := by
  have hram : soc.platform.RamRange output total.toNat := soc.ramRange _ _ (by omega) (by omega)
  have hin : ∀ x, Within output total.toNat x → BootArea x := by
    intro x hx
    rcases hx with ⟨hx₁, hx₂⟩
    exact ⟨by omega, by omega⟩
  exact (readFlash_wp soc.platform Soc.others soc.spiUnseen_others offset total output s
    (soc.unseen_of_ramRange hram)).mono (fun _ _ h => h.2.mono hin)
    fun _ _ h => h.mono hin fun x hx => soc.unmapped_of_ramRange hram hx

theorem readBootParts_wp (s : Machine (Devices σ)) :
    Wp (readBootParts soc.platform) (fun _ s' => Kept BootArea Soc.others s s')
      (Failed soc.platform BootArea (fun _ => False) Soc.others SR_LOAD_KERNEL s) s := by
  refine (readFlash_bootArea soc MANIFEST_OFFSET MANIFEST_SIZE MANIFEST_BUFFER s (by decide)
    (by decide)).bind ?_ fun _ _ h => h
  intro _ s₁ hk₁
  refine (readFlash_bootArea soc SIGNATURE_OFFSET SIGNATURE_SIZE SIGNATURE_BUFFER s₁ (by decide)
    (by decide)).bind ?_ fun _ _ h => h.trans hk₁
  intro _ s₂ hk₂
  have hk := hk₁.trans hk₂
  exact (readFlash_bootArea soc PUBLIC_KEY_OFFSET PUBLIC_KEY_SIZE PUBLIC_KEY_BUFFER s₂ (by decide)
    (by decide)).mono (fun _ _ h => hk.trans h) fun _ _ h => h.trans hk

/-- `verifyPayload` on any range returns, enters recovery, or faults on the range. -/
theorem verifyPayload_wp (load : Nat) (s : Machine (Devices σ)) :
    Wp (verifyPayload soc.platform MANIFEST_BUFFER load)
      (fun _ s' => Kept HashScratch (fun _ => ()) s s')
      (Failed soc.platform HashScratch
        (Unmapped soc.platform load (Manifest.ofMem s.mem).payloadSize) (fun _ => ())
        SR_LOAD_KERNEL s) s := by
  have hsize : (s.mem.word (MANIFEST_BUFFER + PAYLOAD_SIZE)).toNat =
      (Manifest.ofMem s.mem).payloadSize := by
    rw [Manifest.payloadSize, Manifest.ofMem_word _ _ (by decide)]
  rw [verifyPayload]
  refine wp_bind (wp_of_ok (loadWord_ram _ _ s (soc.bufferRam _ _)) ?_)
  rw [hsize]
  refine (sha256Hash_wp soc.platform (fun _ => ()) (fun _ _ => rfl) load _ KERNEL_HASH_BUFFER s
    (soc.bufferRam _ _)).bind ?_ ?_
  · intro _ s₁ hk₁
    refine wp_bind (wp_of_ok (sameBytes_ram _ _ _ _ s₁ (soc.bufferRam _ _)
      (soc.bufferRam _ _)) ?_)
    refine wp_ite (fun _ => ?_) fun _ => wp_of_ok (pure_apply () s₁) hk₁
    exact (enterRecovery_wp soc.platform HashScratch _ (fun _ => ()) SR_LOAD_KERNEL s₁).mono
      (fun _ _ h => h) fun _ _ h => h.trans hk₁
  · intro e s₁ h
    rcases h with ⟨x, he, hx, hk₁⟩
    rw [he]
    exact .fault x s₁ hx hk₁

end SecureBoot.Bootrom
