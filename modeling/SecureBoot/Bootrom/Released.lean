import SecureBoot.Bootrom.Authentic
import SecureBoot.Bootrom.Toolchain

/-!
# Boots of released kernels

One boot on a device whose fused key has signed nothing but what the tools build: whatever the
flash answers, the kernel is a release that the counter allows, or there is none.
-/

namespace SecureBoot.Bootrom

open Words Exec

variable {σ : Type} (soc : Soc σ)

/-- A version and a kernel that fits the flash behind the boot parts. -/
structure Release where
  version : Word
  kernel : List Byte
  nonempty : 1 ≤ kernel.length
  fits : kernel.length ≤ 2 ^ 20 - 0xC0

def Release.manifest (r : Release) : Manifest := builtManifest r.version r.kernel

/-- Under the fused key the verifier accepts the manifests of these releases only. -/
def Vendor (released : Release → Prop) : Prop :=
  ∀ (M : Manifest) (sig key : List Byte), soc.script ⟨M.bytes, sig, key⟩ = true →
    Fips180.sha256 key = soc.otpHash.toList → ∃ r, released r ∧ M = r.manifest

theorem Release.packed (r : Release) : Packed r.manifest :=
  builtManifest_packed r.version r.kernel r.nonempty r.fits

theorem Release.manifest_version (r : Release) : r.manifest.version = r.version.setWidth 64 := by
  simp [manifest, builtManifest]

theorem Release.manifest_payloadHash (r : Release) :
    r.manifest.payloadHash = Fips180.sha256 r.kernel := by
  simp [manifest, builtManifest]

theorem Release.manifest_payloadSize (r : Release) : r.manifest.payloadSize = r.kernel.length :=
  builtManifest_payloadSize r.version r.kernel r.fits

/-- At the `mret` the bytes at the entry point have the digest of the release. -/
structure Release.Entered (r : Release) (s' : Machine (Devices σ)) : Prop where
  digest : Fips180.sha256 (s'.mem.read 0x80000000 r.kernel.length) = Fips180.sha256 r.kernel
  entry : s'.mepc = 0x80000000

/-- A boot that was handed over to this release, with the counter at its version. -/
structure Release.Started (r : Release) (s' : Machine (Devices σ)) : Prop where
  entered : r.Entered s'
  counter : s'.dev.counter = r.version.setWidth 64

/-! ## Stages 3 to 5 on a packed manifest -/

/-- What Stages 3 to 5 leave to the kernel of `M`. -/
structure Handover (M : Manifest) (s s' : Machine (Devices σ)) : Prop where
  version : s.dev.counter ≤ M.version
  counter : s'.dev.counter = M.version
  digest : Fips180.sha256 (s'.mem.read 0x80000000 M.payloadSize) = M.payloadHash
  pmp : s'.pmp = lockedPmp s.pmp
  entry : s'.mepc = 0x80000000

/-- Recovery, with the registers that outlive the boot as they were. -/
structure Refused (s : Machine (Devices σ)) (e : Exit) (s' : Machine (Devices σ)) : Prop where
  exit : e = .recovery
  counter : s'.dev.counter = s.dev.counter
  pmp : s'.pmp = s.pmp
  entry : s'.mepc = RECOVERY_ENTRY

theorem refused_of_kept {ω : Type} {S : Nat → Prop} {obs : Devices σ → ω} {reason : Word}
    {s s₁ : Machine (Devices σ)} (h : Kept S obs s s₁)
    (hcounter : s₁.dev.counter = s.dev.counter) :
    Refused s .recovery (recoveryState soc.platform reason s₁) where
  exit := rfl
  counter := hcounter
  pmp := congrArg (fun c => c.2.2.2.2.2) h.core
  entry := rfl

/-- After Stage 3: the manifest is still in its buffer, and the kernel is in memory and stays there
when the scratch buffers are cleared. -/
structure InMemory (M : Manifest) (s loaded : Machine (Devices σ)) : Prop where
  counter : loaded.dev.counter = s.dev.counter
  pmp : loaded.pmp = s.pmp
  manifest : Manifest.ofMem loaded.mem = M
  digest : Fips180.sha256 ((clearedMem loaded.mem).read M.loadAddress M.payloadSize) = M.payloadHash

theorem Kept.counter {S : Nat → Prop} {s s' : Machine (Devices σ)}
    (h : Kept S Soc.others s s') : s'.dev.counter = s.dev.counter :=
  (Prod.mk.inj (Prod.mk.inj h.dev).2).1

theorem checkAndLoadKernel_packed {M : Manifest} (hpacked : Packed M) (s : Machine (Devices σ))
    (hM : Manifest.ofMem s.mem = M) :
    Wp (checkAndLoadKernel soc.platform MANIFEST_BUFFER) (fun _ loaded => InMemory M s loaded)
      (Refused s) s := by
  have hsafe : LoadSafe M :=
    loadSafe_of_small hpacked.loadAddress (Nat.le_trans hpacked.fits (by decide))
  have hram := hsafe.ramRange soc
  have hload := checkAndLoadKernel_load soc s (by rw [hM]; exact hpacked.not_loadRefused)
  rw [hM] at hload
  refine Wp.congr ?_ hload
  refine (readFlash_wp soc.platform Soc.others soc.spiUnseen_others KERNEL_OFFSET
    (M.word PAYLOAD_SIZE) M.loadAddress s (soc.unseen_of_ramRange hram)).bind ?_ ?_
  · intro _ filled h
    have hfilled := h.2
    have hpmp : filled.pmp = s.pmp := congrArg (fun c => c.2.2.2.2.2) hfilled.core
    have hman := hsafe.manifest_kept hM hfilled.mem
    obtain ⟨mem, _, heq⟩ := verifyPayload_eq soc M.loadAddress filled (by rw [hman]; exact hram)
    split at heq
    · rcases hsafe.handover soc hman heq with ⟨hdigest, hkept, hcleared⟩
      exact wp_of_ok heq ⟨hfilled.counter, hpmp, hkept, by rw [hcleared, hdigest]⟩
    · exact wp_of_error heq ⟨rfl, hfilled.counter, hpmp, rfl⟩
  · intro e s' h
    cases h with
    | recovery s₁ h => exact refused_of_kept soc h h.counter
    | fault x s₁ hx h => exact absurd hx (soc.unmapped_of_ramRange hram)

theorem afterVerify_packed {M : Manifest} (hpacked : Packed M) (s : Machine (Devices σ))
    (hM : Manifest.ofMem s.mem = M) :
    Wp (afterVerify soc.platform) (fun _ _ => False)
      (fun e s' => Refused s e s' ∨ e = .kernel ∧ Handover M s s') s := by
  unfold afterVerify
  refine (checkAndLoadKernel_packed soc hpacked s hM).bind ?_ fun _ _ h => .inl h
  intro _ loaded hloaded
  refine (afterLoad_wp soc loaded).mono (fun _ _ h => h) ?_
  intro e s' h
  rcases h with ⟨rfl, rfl⟩ | ⟨rfl, hversion, rfl⟩
  · exact .inl ⟨rfl, hloaded.counter, hloaded.pmp, rfl⟩
  · rw [hloaded.manifest] at hversion
    have hcounter : RollbackCounter.write loaded.dev.counter M.version = M.version := by
      apply BitVec.eq_of_toNat_eq
      rw [RollbackCounter.write_toNat]
      rw [BitVec.le_def] at hversion
      omega
    refine .inr ⟨rfl, hloaded.counter ▸ hversion, ?_, ?_, ?_, rfl⟩
    · rw [kernelState, hloaded.manifest]
      exact hcounter
    · rw [kernelState_mem, ← hpacked.loadAddress]
      exact hloaded.digest
    · rw [kernelState, hloaded.pmp]

/-! ## The whole boot -/

/-- How a boot ends that found the machine in `s`. -/
inductive Ends (released : Release → Prop) (s : Machine (Devices σ)) :
    Exit → Machine (Devices σ) → Prop
  | refused (e : Exit) (s' : Machine (Devices σ)) (h : Refused s e s') : Ends released s e s'
  | started (r : Release) (hr : released r) (s' : Machine (Devices σ))
      (version : s.dev.counter ≤ r.version.setWidth 64)
      (counter : s'.dev.counter = r.version.setWidth 64) (pmp : s'.pmp = lockedPmp s.pmp)
      (entered : r.Entered s') : Ends released s .kernel s'

theorem bootromMain_ends {released : Release → Prop} (hvendor : Vendor soc released)
    (s : Machine (Devices σ)) :
    Wp (bootromMain soc.platform) (fun _ _ => False) (Ends released s) s := by
  rw [bootromMain_split]
  refine (untilStage3_wp soc s).bind (fun _ t h => ?_) fun e s' h => ?_
  · rcases h with ⟨haccepted, hkept⟩
    rcases haccepted.signed with ⟨sig, key, hscript, hkey⟩
    rcases hvendor _ sig key hscript hkey with ⟨r, hr, hM⟩
    have hcounter : t.dev.counter = s.dev.counter := (Prod.mk.inj hkept.dev).1
    have hpmp : t.pmp = s.pmp := congrArg (fun c => c.2.2.2.2.2) hkept.core
    refine (afterVerify_packed soc r.packed t hM).mono (fun _ _ h => h) fun e s' h => ?_
    rcases h with h | ⟨rfl, h⟩
    · exact .refused e s' ⟨h.exit, h.counter.trans hcounter, h.pmp.trans hpmp, h.entry⟩
    · have hversion := h.version
      have hafter := h.counter
      have hdigest := h.digest
      rw [r.manifest_version] at hversion hafter
      rw [r.manifest_payloadSize, r.manifest_payloadHash] at hdigest
      exact .started r hr s' (hcounter ▸ hversion) hafter (hpmp ▸ h.pmp) ⟨hdigest, h.entry⟩
  · rcases h with ⟨reason, s₁, hkept, rfl, rfl⟩
    exact .refused _ _ (refused_of_kept soc hkept (Prod.mk.inj hkept.dev).1)

end SecureBoot.Bootrom
