import SecureBoot.Bootrom.Run

/-!
# How a run ends

Every outcome of `bootrom_main` traced back to the stage that decided it, for
any behaviour of the SPI port.
-/

namespace SecureBoot.Bootrom

open Words Exec

variable {σ : Type} (soc : Soc σ)

/-! ## Up to Stage 3 -/

def untilStage3 {δ : Type} (p : Platform δ) : Boot δ Unit := do
  readBootParts p
  checkManifestHeader p MANIFEST_BUFFER
  checkPublicKey p
  checkManifestSignature p

theorem bootromMain_split {δ : Type} (p : Platform δ) :
    bootromMain p = untilStage3 p >>= fun _ => afterVerify p := by
  simp only [bootromMain_eq, untilStage3, afterParts, bind_assoc]

/-- The buffers hold what Stages 0 to 2 accept. -/
structure Accepted (s : Machine (Devices σ)) : Prop where
  header : (Manifest.ofMem s.mem).HeaderOk
  key : KeyOk soc s.mem
  signature : SignatureOk soc s.mem

/-- The run entered recovery from a state that differs in `S` only. -/
def RecoveredFrom {ω : Type} (S : Nat → Prop) (obs : Devices σ → ω) (s : Machine (Devices σ))
    (e : Exit) (s' : Machine (Devices σ)) : Prop :=
  ∃ reason s₁, Kept S obs s s₁ ∧ e = .recovery ∧ s' = recoveryState soc.platform reason s₁

theorem Kept.coarsen {δ ω ω' : Type} {S : Nat → Prop} {obs : δ → ω} {s s' : Machine δ}
    (h : Kept S obs s s') (f : ω → ω') : Kept S (fun d => f (obs d)) s s' :=
  ⟨h.mem, congrArg f h.dev, h.core⟩

theorem readBootParts_registers (s : Machine (Devices σ)) :
    Wp (readBootParts soc.platform) (fun _ s' => Kept BootArea Soc.registers s s')
      (RecoveredFrom soc BootArea Soc.registers s) s := by
  refine (readBootParts_wp soc s).mono (fun _ s' h => h.coarsen Prod.snd) ?_
  intro e s' h
  cases h with
  | recovery s₁ h => exact ⟨SR_LOAD_KERNEL, s₁, h.coarsen Prod.snd, rfl, rfl⟩
  | fault x s₁ hx h => exact hx.elim

theorem checkManifestHeader_wp (s : Machine (Devices σ)) :
    Wp (checkManifestHeader soc.platform MANIFEST_BUFFER)
      (fun _ t => (Manifest.ofMem s.mem).HeaderOk ∧ t = s)
      (RecoveredFrom soc BootArea Soc.registers s) s := by
  by_cases h : (Manifest.ofMem s.mem).HeaderOk
  · exact wp_of_ok (checkManifestHeader_accepts soc s h) ⟨h, rfl⟩
  · exact wp_of_error (checkManifestHeader_refuses soc s h) ⟨_, s, .refl _ _ s, rfl, rfl⟩

theorem checkPublicKey_wp (s : Machine (Devices σ)) :
    Wp (checkPublicKey soc.platform)
      (fun _ t => KeyOk soc s.mem ∧ Kept KeyScratch Soc.registers s t)
      (RecoveredFrom soc BootArea Soc.registers s) s := by
  obtain ⟨mem, hmem, heq⟩ := checkPublicKey_eq soc s
  have hkept : Kept KeyScratch Soc.registers s { s with mem := mem } := ⟨hmem, rfl, rfl⟩
  by_cases h : KeyOk soc s.mem
  · have h' := h
    unfold KeyOk at h'
    rw [if_pos h'] at heq
    exact wp_of_ok heq ⟨h, hkept⟩
  · have h' := h
    unfold KeyOk at h'
    rw [if_neg h'] at heq
    exact wp_of_error heq ⟨_, _, hkept.mono keyScratch_bootArea, rfl, rfl⟩

theorem checkManifestSignature_wp (s : Machine (Devices σ)) :
    Wp (checkManifestSignature soc.platform)
      (fun _ t => SignatureOk soc s.mem ∧ t.mem = s.mem ∧ Kept BootArea Soc.registers s t)
      (RecoveredFrom soc BootArea Soc.registers s) s := by
  obtain ⟨v, heq⟩ := checkManifestSignature_eq soc s
  have hkept : Kept BootArea Soc.registers s { s with dev := { s.dev with ed25519 := v } } :=
    ⟨.refl _ _, rfl, rfl⟩
  by_cases h : soc.script (stagedFiles s.mem) = true
  · rw [if_pos h] at heq
    exact wp_of_ok heq ⟨h, rfl, hkept⟩
  · rw [if_neg h] at heq
    exact wp_of_error heq ⟨_, _, hkept, rfl, rfl⟩

/-- The three checks leave the boot parts in their buffers. -/
theorem checks_keep (s : Machine (Devices σ)) :
    Wp (do checkManifestHeader soc.platform MANIFEST_BUFFER
           checkPublicKey soc.platform
           checkManifestSignature soc.platform)
      (fun _ t => Memory.ChangedOnly KeyScratch s.mem t.mem) (fun _ _ => True) s := by
  refine (checkManifestHeader_wp soc s).bind ?_ fun _ _ _ => trivial
  intro _ s₁ hheader
  obtain ⟨_, hs₁⟩ := hheader
  subst hs₁
  refine (checkPublicKey_wp soc s₁).bind ?_ fun _ _ _ => trivial
  intro _ s₂ hkey
  refine (checkManifestSignature_wp soc s₂).mono ?_ fun _ _ _ => trivial
  intro _ t hsig
  rw [hsig.2.1]
  exact hkey.2.mem

/-- The manifest that is accepted is the one that was read. -/
theorem untilStage3_manifest {s parts t : Machine (Devices σ)}
    (hparts : readBootParts soc.platform s = .ok () parts)
    (h : untilStage3 soc.platform s = .ok () t) :
    Manifest.ofMem t.mem = Manifest.ofMem parts.mem := by
  rw [untilStage3, bind_of_ok hparts] at h
  exact manifest_kept ((checks_keep soc parts).ok h)

theorem RecoveredFrom.trans {S : Nat → Prop} {ω : Type} {obs : Devices σ → ω}
    {s s₁ s' : Machine (Devices σ)} {e : Exit} (h : Kept S obs s s₁)
    (hr : RecoveredFrom soc S obs s₁ e s') : RecoveredFrom soc S obs s e s' := by
  obtain ⟨reason, s₂, hkept, he, hs⟩ := hr
  exact ⟨reason, s₂, h.trans hkept, he, hs⟩

/-- Stages 0 to 2 accept or recover, and write in the boot area only. -/
theorem untilStage3_wp (s : Machine (Devices σ)) :
    Wp (untilStage3 soc.platform)
      (fun _ t => Accepted soc t ∧ Kept BootArea Soc.registers s t)
      (RecoveredFrom soc BootArea Soc.registers s) s := by
  unfold untilStage3
  refine (readBootParts_registers soc s).bind ?_ fun _ _ h => h
  intro _ parts hparts
  refine (checkManifestHeader_wp soc parts).bind ?_ fun _ _ h => h.trans soc hparts
  intro _ s₁ hheader
  obtain ⟨hheader, hs₁⟩ := hheader
  subst hs₁
  refine (checkPublicKey_wp soc s₁).bind ?_ fun _ _ h => h.trans soc hparts
  intro _ s₂ hkey
  obtain ⟨hkey, hkept⟩ := hkey
  have hparts₂ := hparts.trans (hkept.mono keyScratch_bootArea)
  refine (checkManifestSignature_wp soc s₂).mono ?_ fun _ _ h => h.trans soc hparts₂
  intro _ t hsig
  obtain ⟨hsig, hmem, hkept₂⟩ := hsig
  refine ⟨⟨?_, ?_, ?_⟩, hparts₂.trans hkept₂⟩
  · rw [hmem, manifest_kept hkept.mem]
    exact hheader
  · unfold KeyOk at hkey ⊢
    rw [hmem, keyScratch_kept hkept.mem _ _ (by decide)]
    exact hkey
  · rw [hmem]
    exact hsig

/-! ## From Stage 3 on -/

/-- Every address of the range answers. -/
def Mapped (a n : Nat) : Prop := ∀ x, Within a n x → soc.platform.mapped x = true

/-- The payload read on any range. -/
theorem payloadRead_wp (M : Manifest) (s : Machine (Devices σ)) :
    Wp (readFlash soc.platform KERNEL_OFFSET (M.word PAYLOAD_SIZE) M.loadAddress)
      (fun _ s' => Mapped soc M.loadAddress M.payloadSize ∧
        Kept (LoadRange M) (fun _ => ()) s s')
      (Failed soc.platform (LoadRange M) (Unmapped soc.platform M.loadAddress M.payloadSize)
        (fun _ => ()) SR_LOAD_KERNEL s) s :=
  readFlash_wp soc.platform (fun _ => ()) soc.spiUnseen_unit KERNEL_OFFSET (M.word PAYLOAD_SIZE)
    M.loadAddress s fun _ _ _ _ _ => rfl

/-- What Stages 3 to 5 may write before they give up. -/
def LateArea (M : Manifest) (x : Nat) : Prop := BootArea x ∨ (¬ LoadRefused M ∧ LoadRange M x)

/-- The four ends of a run that reached Stage 3 in `s`. -/
inductive LateEnd (s : Machine (Devices σ)) : Exit → Machine (Devices σ) → Prop
  | kernel (filled loaded : Machine (Devices σ)) (guards : ¬ LoadRefused (Manifest.ofMem s.mem))
      (mapped : Mapped soc (Manifest.ofMem s.mem).loadAddress (Manifest.ofMem s.mem).payloadSize)
      (read : readFlash soc.platform KERNEL_OFFSET ((Manifest.ofMem s.mem).word PAYLOAD_SIZE)
        (Manifest.ofMem s.mem).loadAddress s = .ok () filled)
      (verify : verifyPayload soc.platform MANIFEST_BUFFER (Manifest.ofMem s.mem).loadAddress
        filled = .ok () loaded)
      (version : loaded.dev.counter ≤ (Manifest.ofMem loaded.mem).version) :
      LateEnd s .kernel (kernelState soc loaded)
  | recovery (reason : Word) (s₁ : Machine (Devices σ))
      (h : Kept (LateArea (Manifest.ofMem s.mem)) (fun _ => ()) s s₁) :
      LateEnd s .recovery (recoveryState soc.platform reason s₁)
  | storeFault (x : Nat) (s₁ : Machine (Devices σ)) (guards : ¬ LoadRefused (Manifest.ofMem s.mem))
      (hx : Unmapped soc.platform (Manifest.ofMem s.mem).loadAddress
        (Manifest.ofMem s.mem).payloadSize x) : LateEnd s (.fault x) s₁
  | loadFault (x : Nat) (filled s₁ : Machine (Devices σ))
      (guards : ¬ LoadRefused (Manifest.ofMem s.mem))
      (filledKept : Kept (LoadRange (Manifest.ofMem s.mem)) (fun _ => ()) s filled)
      (hx : Unmapped soc.platform (Manifest.ofMem s.mem).loadAddress
        (Manifest.ofMem filled.mem).payloadSize x) : LateEnd s (.fault x) s₁

theorem afterLoad_wp (s : Machine (Devices σ)) :
    Wp (afterLoad soc.platform) (fun _ _ => False)
      (fun e s' => (e = .recovery ∧ s' = recoveryState soc.platform SR_ROLLBACK_COUNTER s) ∨
        (e = .kernel ∧ s.dev.counter ≤ (Manifest.ofMem s.mem).version ∧
          s' = kernelState soc s)) s := by
  by_cases h : (Manifest.ofMem s.mem).version < s.dev.counter
  · exact wp_of_error (afterLoad_refuses soc s h) (.inl ⟨rfl, rfl⟩)
  · have hle := BitVec.not_lt.mp h
    exact wp_of_error (afterLoad_accepts soc s hle) (.inr ⟨rfl, hle, rfl⟩)

theorem afterVerify_wp (s : Machine (Devices σ)) :
    Wp (afterVerify soc.platform) (fun _ _ => False) (LateEnd soc s) s := by
  generalize hM : Manifest.ofMem s.mem = M
  by_cases hguard : LoadRefused M
  · rw [← hM] at hguard
    exact wp_bind (wp_of_error (checkAndLoadKernel_refused _ soc.scratchRam s hguard)
      (.recovery _ s (.refl _ _ s)))
  have hload : ∀ x, LoadRange M x → LateArea M x := fun x hx => .inr ⟨hguard, hx⟩
  have hboot : ∀ x, HashScratch x → LateArea M x := fun x hx => .inl (hashScratch_bootArea x hx)
  have hstage : checkAndLoadKernel soc.platform MANIFEST_BUFFER s =
      (readFlash soc.platform KERNEL_OFFSET (M.word PAYLOAD_SIZE) M.loadAddress >>= fun _ =>
        verifyPayload soc.platform MANIFEST_BUFFER M.loadAddress) s := by
    rw [← hM]
    exact checkAndLoadKernel_load soc s (by rwa [hM])
  have hwp : Wp (checkAndLoadKernel soc.platform MANIFEST_BUFFER)
      (fun _ loaded => ∃ filled, Mapped soc M.loadAddress M.payloadSize ∧
        readFlash soc.platform KERNEL_OFFSET (M.word PAYLOAD_SIZE) M.loadAddress s =
          .ok () filled ∧
        verifyPayload soc.platform MANIFEST_BUFFER M.loadAddress filled = .ok () loaded ∧
        Kept (LateArea M) (fun _ => ()) s loaded)
      (LateEnd soc s) s := by
    refine Wp.congr ?_ hstage
    refine (payloadRead_wp soc M s).withRun.bind ?_ ?_
    · intro _ filled h
      rcases h with ⟨hread, hmapped, hfilled⟩
      refine (verifyPayload_wp soc M.loadAddress filled).withRun.mono ?_ ?_
      · intro _ loaded h
        rcases h with ⟨hverify, hloaded⟩
        exact ⟨filled, hmapped, hread, hverify, (hfilled.mono hload).trans (hloaded.mono hboot)⟩
      · intro e s' h
        rcases h with ⟨_, hf⟩
        cases hf with
        | recovery s₁ h =>
            exact .recovery _ s₁ (hM ▸ (hfilled.mono hload).trans (h.mono hboot))
        | fault x s₁ hx h =>
            subst hM
            exact .loadFault x filled s' hguard hfilled hx
    · intro e s' h
      rcases h with ⟨_, hf⟩
      cases hf with
      | recovery s₁ h => exact .recovery _ s₁ (hM ▸ h.mono hload)
      | fault x s₁ hx h =>
          subst hM
          exact .storeFault x s' hguard hx
  unfold afterVerify
  refine hwp.bind ?_ fun _ _ h => h
  intro _ loaded h
  rcases h with ⟨filled, hmapped, hread, hverify, hkept⟩
  refine (afterLoad_wp soc loaded).mono (fun _ _ h => h) ?_
  intro e s' h
  rcases h with ⟨he, hs⟩ | ⟨he, hversion, hs⟩
  · subst he hs
    exact .recovery _ loaded (hM ▸ hkept)
  · subst he hs
    subst hM
    exact .kernel filled loaded hguard hmapped hread hverify hversion

/-- No run returns, and every end is one of these. -/
theorem bootromMain_wp (s : Machine (Devices σ)) :
    Wp (bootromMain soc.platform) (fun _ _ => False)
      (fun e s' => RecoveredFrom soc BootArea Soc.registers s e s' ∨
        ∃ t, untilStage3 soc.platform s = .ok () t ∧ Accepted soc t ∧
          Kept BootArea Soc.registers s t ∧ LateEnd soc t e s') s := by
  rw [bootromMain_split]
  refine (untilStage3_wp soc s).withRun.bind ?_ fun _ _ h => .inl h.2
  intro _ t h
  rcases h with ⟨hrun, haccepted, hkept⟩
  exact (afterVerify_wp soc t).mono (fun _ _ h => h)
    fun _ _ h => .inr ⟨t, hrun, haccepted, hkept, h⟩

/-- The states of a run into the kernel: its manifest accepted, its payload in memory, and what
Stage 3 left. -/
structure KernelRun (s accepted filled loaded s' : Machine (Devices σ)) : Prop where
  stages : untilStage3 soc.platform s = .ok () accepted
  checks : Accepted soc accepted
  guards : ¬ LoadRefused (Manifest.ofMem accepted.mem)
  mapped : Mapped soc (Manifest.ofMem accepted.mem).loadAddress
    (Manifest.ofMem accepted.mem).payloadSize
  read : readFlash soc.platform KERNEL_OFFSET ((Manifest.ofMem accepted.mem).word PAYLOAD_SIZE)
    (Manifest.ofMem accepted.mem).loadAddress accepted = .ok () filled
  verify : verifyPayload soc.platform MANIFEST_BUFFER (Manifest.ofMem accepted.mem).loadAddress
    filled = .ok () loaded
  version : loaded.dev.counter ≤ (Manifest.ofMem loaded.mem).version
  handover : s' = kernelState soc loaded

/-- Every run into the kernel goes through these. -/
theorem bootromMain_kernel {s s' : Machine (Devices σ)}
    (h : bootromMain soc.platform s = .error .kernel s') :
    ∃ accepted filled loaded, KernelRun soc s accepted filled loaded s' := by
  rcases (bootromMain_wp soc s).error h with ⟨_, _, _, hexit, _⟩ | ⟨accepted, hrun, hacc, _, hend⟩
  · cases hexit
  cases hend with
  | kernel filled loaded guards mapped read verify version =>
      exact ⟨accepted, filled, loaded, hrun, hacc, guards, mapped, read, verify, version, rfl⟩

end SecureBoot.Bootrom
