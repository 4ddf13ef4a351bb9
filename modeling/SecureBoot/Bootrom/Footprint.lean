import SecureBoot.Bootrom.Life

/-!
# What a boot may write

Whatever the flash answers and however the boot ends: without a signed manifest nothing moves but
BootROM's own memory and a status bit, and with one nothing else but its load range.
-/

namespace SecureBoot.Bootrom

open Words Exec

variable {σ : Type} (soc : Soc σ)

/-! ## Stages 3 to 5 -/

theorem Failed.mem {δ ω : Type} {p : Platform δ} {S F : Nat → Prop} {obs : δ → ω} {reason : Word}
    {s s' : Machine δ} {e : Exit} (h : Failed p S F obs reason s e s') :
    Memory.ChangedOnly S s.mem s'.mem := by
  cases h with
  | recovery s₁ h => exact h.mem
  | fault x s₁ hx h => exact h.mem

theorem scratch_bootArea (x : Nat) (h : Scratch x) : BootArea x := by
  rw [scratch_iff] at h
  unfold BootArea
  omega

/-- A payload that passed the guards, up to the comparison of the digests. -/
theorem checkAndLoadKernel_writes {M : Manifest} (s : Machine (Devices σ))
    (hM : Manifest.ofMem s.mem = M) (hguard : ¬ LoadRefused M) :
    Wp (checkAndLoadKernel soc.platform MANIFEST_BUFFER)
      (fun _ t => Memory.ChangedOnly (fun x => BootArea x ∨ LoadRange M x) s.mem t.mem)
      (fun _ t => Memory.ChangedOnly (fun x => BootArea x ∨ LoadRange M x) s.mem t.mem) s := by
  have hload := checkAndLoadKernel_load soc s (by rwa [hM])
  rw [hM] at hload
  have hhash : ∀ x, HashScratch x → BootArea x ∨ LoadRange M x :=
    fun x hx => .inl (hashScratch_bootArea x hx)
  refine Wp.congr ?_ hload
  apply (payloadRead_wp soc M s).bind
  · intro _ filled h
    have hfilled := h.2.mem.mono fun x hx => (.inr hx : BootArea x ∨ LoadRange M x)
    apply (verifyPayload_wp soc M.loadAddress filled).mono
    · intro _ t ht
      exact hfilled.trans (ht.mem.mono hhash)
    · intro e t ht
      exact hfilled.trans (ht.mem.mono hhash)
  · intro e t ht
    exact ht.mem.mono fun x hx => .inr hx

theorem afterVerify_writes {M : Manifest} (s : Machine (Devices σ))
    (hM : Manifest.ofMem s.mem = M) (hguard : ¬ LoadRefused M) :
    Wp (afterVerify soc.platform) (fun _ _ => False)
      (fun _ t => Memory.ChangedOnly (fun x => BootArea x ∨ LoadRange M x) s.mem t.mem) s := by
  unfold afterVerify
  apply (checkAndLoadKernel_writes soc s hM hguard).bind
  · intro _ loaded hloaded
    apply (afterLoad_wp soc loaded).mono
    · exact fun _ _ h => h
    · intro e t ht
      rcases ht with ⟨_, rfl⟩ | ⟨_, _, rfl⟩
      · exact hloaded
      · rw [kernelState_mem]
        exact hloaded.trans ((clearedMem_changedOnly loaded.mem).mono
          fun x hx => .inl (scratch_bootArea x hx))
  · exact fun _ _ h => h

/-! ## The whole boot -/

/-- Stages 0 to 2 accept `M` under some signature and key, and Stage 3 goes on to load it. -/
structure Loadable (M : Manifest) : Prop where
  header : M.HeaderOk
  signed : ∃ signature key, soc.script ⟨M.bytes, signature, key⟩ = true ∧
    Fips180.sha256 key = soc.otpHash.toList
  guards : ¬ LoadRefused M

/-- Either nothing has moved but BootROM's own memory, the SPI block and the verifier when recovery
is entered, or the writes to other memory are those of a signed load. -/
inductive Footprint (s : Machine (Devices σ)) (e : Exit) (s' : Machine (Devices σ)) : Prop
  | inert (h : RecoveredFrom soc BootArea Soc.registers s e s')
  | signed (M : Manifest) (h : Loadable soc M)
      (mem : Memory.ChangedOnly (fun x => BootArea x ∨ LoadRange M x) s.mem s'.mem)

theorem bootromMain_footprint (s : Machine (Devices σ)) :
    Wp (bootromMain soc.platform) (fun _ _ => False) (Footprint soc s) s := by
  rw [bootromMain_split]
  apply (untilStage3_wp soc s).bind
  · intro _ t h
    rcases h with ⟨haccepted, hkept⟩
    generalize hM : Manifest.ofMem t.mem = M
    by_cases hguard : LoadRefused M
    · have hrefused := checkAndLoadKernel_refused _ soc.scratchRam t (by rwa [hM])
      unfold afterVerify
      exact wp_bind (wp_of_error hrefused (.inert ⟨SR_LOAD_KERNEL, t, hkept, rfl, rfl⟩))
    · have hloadable : Loadable soc M := by
        subst hM
        exact ⟨haccepted.header, haccepted.signed, hguard⟩
      apply (afterVerify_writes soc t hM hguard).mono
      · exact fun _ _ h => h
      · intro e s' h
        exact .signed M hloadable ((hkept.mem.mono fun _ hx => .inl hx).trans h)
  · exact fun e s' h => .inert h

/-- Every boot ends with one of the two. -/
theorem boot_footprint (s : Machine (Devices σ)) :
    ∃ e s', bootromMain soc.platform s = .error e s' ∧ Footprint soc s e s' := by
  have hwp := bootromMain_footprint soc s
  cases hrun : bootromMain soc.platform s with
  | ok _ s' => exact (hwp.ok hrun).elim
  | error e s' => exact ⟨e, s', rfl, hwp.error hrun⟩

/-! ## Released kernels -/

theorem Release.loadRange_below (r : Release) {x : Nat} (hx : LoadRange r.manifest x) :
    0x80000000 ≤ x ∧ x < 0x800FFF40 := by
  have hload := r.packed.loadAddress
  have hfits := r.packed.fits
  rcases hx with ⟨h₁, h₂⟩
  omega

theorem Footprint.released {released : Release → Prop} (hvendor : Vendor soc released)
    {s s' : Machine (Devices σ)} {e : Exit} (h : Footprint soc s e s') :
    Memory.ChangedOnly (fun x => BootArea x ∨ 0x80000000 ≤ x ∧ x < 0x800FFF40) s.mem s'.mem := by
  cases h with
  | inert h =>
      rcases h with ⟨reason, s₁, hkept, rfl, rfl⟩
      exact hkept.mem.mono fun x hx => .inl hx
  | signed M h mem =>
      rcases h.signed with ⟨sig, key, hscript, hkey⟩
      rcases hvendor M sig key hscript hkey with ⟨r, hr, rfl⟩
      exact mem.mono fun x hx => hx.imp_right r.loadRange_below

/-- When the fused key has signed released manifests only, a boot spares everything from the end
of the largest kernel to BootROM's own memory, the recovery image first of all. -/
theorem released_spares {released : Release → Prop} (hvendor : Vendor soc released)
    (s : Machine (Devices σ)) :
    ∃ e s', bootromMain soc.platform s = .error e s' ∧ (e = .kernel ∨ e = .recovery) ∧
      (∀ x, ¬ BootArea x → ¬ (0x80000000 ≤ x ∧ x < 0x800FFF40) → s'.mem x = s.mem x) ∧
      ∀ len, RECOVERY_ENTRY + len ≤ BOOT_SCRATCH_BASE →
        s'.mem.read RECOVERY_ENTRY len = s.mem.read RECOVERY_ENTRY len := by
  have hwp := bootromMain_footprint soc s
  cases hrun : bootromMain soc.platform s with
  | ok _ s' => exact (hwp.ok hrun).elim
  | error e s' =>
      have hmem := (hwp.error hrun).released soc hvendor
      refine ⟨e, s', rfl, ?_, fun x hboot hbelow => hmem x fun hx => hx.elim hboot hbelow, ?_⟩
      · cases (bootromMain_ends soc hvendor s).error hrun with
        | refused _ _ h => exact .inr h.exit
        | started r hr _ version counter pmp entered => exact .inl rfl
      · intro len hlen
        apply hmem.read_eq
        intro x h₁ h₂ hx
        have haddr := addresses
        have hscratch : BOOT_SCRATCH_BASE = 0x88000000 := rfl
        unfold BootArea at hx
        omega

theorem selfLoop_spares : ∃ e s',
    bootromMain selfLoop.chip.platform (Image.atReset (fun _ => 0) 2) = .error e s' ∧
      (e = .kernel ∨ e = .recovery) ∧ s'.mem.read RECOVERY_ENTRY 0x40000 =
        (Image.atReset (fun _ => 0) 2).mem.read RECOVERY_ENTRY 0x40000 := by
  have hvendor : Vendor selfLoop.chip (· = Life.selfRelease) := fun M sig key hscript _ =>
    ⟨_, rfl, (selfLoop.chip_accepts hscript).trans Life.selfRelease_manifest⟩
  rcases released_spares selfLoop.chip hvendor (Image.atReset (fun _ => 0) 2) with
    ⟨e, s', hrun, hexit, _, hrecovery⟩
  exact ⟨e, s', hrun, hexit, hrecovery 0x40000 (by decide)⟩

end SecureBoot.Bootrom
