import SecureBoot.Bootrom.Provision

/-!
# The boot policy

The decision of a boot as a function of what the flash holds: the first of
five checks that fails, or none. A run against a port that serves an image
follows it.
-/

namespace SecureBoot.Bootrom

open Words Exec

variable {σ : Type} (soc : Soc σ)

inductive Check where
  | header
  | publicKey
  | signature
  | payload
  | version
deriving DecidableEq, Repr

namespace Check

def bit : Check → Word
  | header => SR_MANIFEST_HEADER
  | publicKey => SR_PUBLIC_KEY
  | signature => SR_MANIFEST_SIGNATURE
  | payload => SR_LOAD_KERNEL
  | version => SR_ROLLBACK_COUNTER

def stage : Check → Nat
  | header => 0
  | publicKey => 1
  | signature => 2
  | payload => 3
  | version => 4

end Check

/-- The first check that fails, in the order of the stages. -/
def Image.firstFailing (I : Image) (counter : DWord) : Option Check :=
  if ¬ I.manifest.HeaderOk then some .header
  else if ¬ I.KeyOk soc then some .publicKey
  else if ¬ I.SignatureOk soc then some .signature
  else if ¬ I.PayloadOk then some .payload
  else if I.manifest.version < counter then some .version
  else none

/-- Where no check fails the first three have passed. -/
theorem Image.verified_of_firstFailing (I : Image) {counter : DWord}
    (h : I.firstFailing soc counter = none) : I.Verified soc := by
  unfold Image.firstFailing at h
  by_cases hheader : I.manifest.HeaderOk
  case neg =>
    rw [if_pos hheader] at h
    cases h
  rw [if_neg (not_not_intro hheader)] at h
  by_cases hkey : I.KeyOk soc
  case neg =>
    rw [if_pos hkey] at h
    cases h
  rw [if_neg (not_not_intro hkey)] at h
  by_cases hsig : I.SignatureOk soc
  case neg =>
    rw [if_pos hsig] at h
    cases h
  exact ⟨hheader, hkey, hsig⟩

/-! ## The policy -/

/-- What `tools/manifest_generators.py` packs. -/
structure Packed (M : Manifest) : Prop where
  loadAddress : M.loadAddress = 0x80000000
  entryPoint : M.entryPoint = 0x80000000
  nonempty : 1 ≤ M.payloadSize
  fits : M.payloadSize ≤ 2 ^ 20 - 0xC0

theorem Packed.not_loadRefused {M : Manifest} (h : Packed M) : ¬ LoadRefused M := by
  have haddr := addresses
  have hload := h.loadAddress
  have hsize := h.nonempty
  unfold LoadRefused
  omega

theorem Packed.ramRange {M : Manifest} (h : Packed M) :
    soc.platform.RamRange M.loadAddress M.payloadSize := by
  have hload := h.loadAddress
  have hsize := h.fits
  exact soc.ramRange _ _ (by omega) (by omega)

theorem Packed.loadRange {M : Manifest} (h : Packed M) (x : Nat) (hx : LoadRange M x) :
    x < 0x80100000 := by
  have hload := h.loadAddress
  have hsize := h.fits
  have hx₂ := hx.2
  omega

theorem Packed.loadClear {M : Manifest} (h : Packed M) : LoadClear M := by
  apply loadClear_below
  rw [h.loadAddress]
  exact Nat.le_trans (Nat.add_le_add_left h.fits _) (by decide)

/-- How a run ends when check `k` is the first to fail. -/
structure Recovers (k : Check) (s s' : Machine (Devices σ)) : Prop where
  status : s'.dev.status = s.dev.status ||| k.bit
  counter : s'.dev.counter = s.dev.counter
  pmp : s'.pmp = s.pmp
  entry : s'.mepc = RECOVERY_ENTRY
  memory : k.stage ≤ 2 → Memory.ChangedOnly BootArea s.mem s'.mem

/-- How a run ends when no check fails. -/
structure Boots (I : Image) (s s' : Machine (Devices σ)) : Prop where
  payload : s'.mem.read 0x80000000 I.manifest.payloadSize = I.payload
  counter : s'.dev.counter.toNat = max s.dev.counter.toNat I.manifest.version.toNat
  scratch : ∀ x, Scratch x → s'.mem x = 0
  locked : ∀ i < 16, s'.pmp.locked i = true
  regions : s.pmp.Off → s'.pmp = bootPmp s.pmp.addr
  status : s'.dev.status = s.dev.status &&& ~~~SR_LOCK_PMP
  entry : s'.mepc = 0x80000000

def Follows (I : Image) (s : Machine (Devices σ)) : Option Check → Exit → Machine (Devices σ) → Prop
  | some k, e, s' => e = .recovery ∧ Recovers k s s'
  | none, e, s' => e = .kernel ∧ Boots I s s'

theorem recovers_of_kept {S : Nat → Prop} {k : Check} {s s₁ : Machine (Devices σ)}
    (h : Kept S Soc.registers s s₁) (hS : k.stage ≤ 2 → ∀ x, S x → BootArea x) :
    Recovers k s (recoveryState soc.platform k.bit s₁) := by
  obtain ⟨hcounter, hstatus⟩ := Prod.mk.inj h.dev
  have hpmp : s₁.pmp = s.pmp := congrArg (fun c => c.2.2.2.2.2) h.core
  exact
    { status := by rw [← hstatus]; rfl
      counter := hcounter
      pmp := hpmp
      entry := rfl
      memory := fun hk => h.mem.mono (hS hk) }

/-- How a run ends whose payload goes anywhere. -/
inductive PolicyEnd (I : Image) (s : Machine (Devices σ)) :
    Option Check → Exit → Machine (Devices σ) → Prop
  | refused (k : Check) (s' : Machine (Devices σ)) (h : Recovers k s s') :
      PolicyEnd I s (some k) .recovery s'
  | started (t : Machine (Devices σ)) (h : Loaded I s t) :
      PolicyEnd I s none .kernel (kernelState soc t)

/-- A verified payload goes to DRAM, clear of what a boot uses itself. -/
def Image.ClearLoad (I : Image) : Prop :=
  soc.platform.RamRange I.manifest.loadAddress I.manifest.payloadSize ∧ LoadClear I.manifest

/-- The first failing check decides, wherever the payload goes. -/
theorem bootromMain_policyEnd (I : Image) (s : Machine (Devices σ))
    (hserved : I.ServedBy soc s.dev.spi)
    (hclear : I.Verified soc → ¬ LoadRefused I.manifest → I.ClearLoad soc) :
    ∃ e s', bootromMain soc.platform s = .error e s' ∧
      PolicyEnd soc I s (I.firstFailing soc s.dev.counter) e s' := by
  obtain ⟨q₁, q₂, q₃, h₁, h₂, h₃, _⟩ := id hserved
  have hrun : bootromMain soc.platform s = afterParts soc.platform (withParts I q₃ s) := by
    rw [bootromMain_eq, bind_of_ok (readBootParts_serves soc I s q₁ q₂ q₃ h₁ h₂ h₃)]
  have hkept := withParts_kept I q₃ s
  have hman : Manifest.ofMem (withParts I q₃ s).mem = I.manifest := I.ofMem_partsMem s.mem
  have hscratch : ∀ {mem : Memory}, Memory.ChangedOnly KeyScratch (withParts I q₃ s).mem mem →
      Memory.ChangedOnly BootArea s.mem mem :=
    fun hmem => hkept.mem.trans (hmem.mono keyScratch_bootArea)
  unfold Image.firstFailing
  by_cases hheader : I.manifest.HeaderOk
  case neg =>
    rw [if_pos hheader, hrun, afterParts_header soc _ (by rwa [hman])]
    exact ⟨_, _, rfl, .refused _ _ (recovers_of_kept soc (k := .header) hkept fun _ x hx => hx)⟩
  rw [if_neg (not_not_intro hheader)]
  by_cases hkey : I.KeyOk soc
  case neg =>
    obtain ⟨mem, hmem, heq⟩ := afterParts_key soc (withParts I q₃ s) (by rwa [hman])
      fun h => hkey ((I.keyOk_partsMem soc s.mem).mp h)
    rw [if_pos hkey, hrun, heq]
    exact ⟨_, _, rfl, .refused _ _ (recovers_of_kept soc (k := .publicKey)
      ⟨hscratch hmem, rfl, rfl⟩ fun _ x hx => hx)⟩
  rw [if_neg (not_not_intro hkey)]
  by_cases hsig : I.SignatureOk soc
  case neg =>
    obtain ⟨mem, v, hmem, heq⟩ := afterParts_signature soc (withParts I q₃ s) (by rwa [hman])
      ((I.keyOk_partsMem soc s.mem).mpr hkey)
      fun h => hsig ((I.signatureOk_partsMem soc s.mem).mp h)
    rw [if_pos hsig, hrun, heq]
    exact ⟨_, _, rfl, .refused _ _ (recovers_of_kept soc (k := .signature)
      ⟨hscratch hmem, rfl, rfl⟩ fun _ x hx => hx)⟩
  rw [if_neg (not_not_intro hsig)]
  by_cases hguard : LoadRefused I.manifest
  · obtain ⟨mem, q, v, hman₁, hmem, _, heq⟩ :=
      bootromMain_verified soc I s hserved ⟨hheader, hkey, hsig⟩
    rw [if_pos fun h => h.1 hguard, heq, afterVerify,
      bind_of_error (checkAndLoadKernel_refused _ soc.scratchRam _ (by rwa [hman₁]))]
    exact ⟨_, _, rfl, .refused _ _ (recovers_of_kept soc (k := .payload) ⟨hmem, rfl, rfl⟩
      fun _ x hx => hx)⟩
  obtain ⟨hram, hload⟩ := hclear ⟨hheader, hkey, hsig⟩ hguard
  obtain ⟨t, hloaded, heq⟩ := bootromMain_loads soc I s hserved ⟨hheader, hkey, hsig⟩ hguard hram
    hload
  by_cases hhash : Fips180.sha256 I.payload = I.manifest.payloadHash
  case neg =>
    rw [if_pos fun h => hhash h.2, heq, if_neg hhash]
    exact ⟨_, _, rfl, .refused _ _ (recovers_of_kept soc (k := .payload) hloaded.kept
      fun hk => absurd hk (by decide))⟩
  rw [if_neg (not_not_intro ⟨hguard, hhash⟩), heq, if_pos hhash]
  obtain ⟨hcounter, _⟩ := Prod.mk.inj hloaded.kept.dev
  by_cases hversion : I.manifest.version < s.dev.counter
  · rw [if_pos hversion, afterLoad_refuses soc t (by rwa [hloaded.manifest, hcounter])]
    exact ⟨_, _, rfl, .refused _ _ (recovers_of_kept soc (k := .version) hloaded.kept
      fun hk => absurd hk (by decide))⟩
  · rw [if_neg hversion, afterLoad_accepts soc t
      (by rw [hloaded.manifest, hcounter]; exact BitVec.not_lt.mp hversion)]
    exact ⟨_, _, rfl, .started t hloaded⟩

/-! ## Packed manifests -/

/-- What is left of a boot once the payload is loaded where no scratch is. -/
theorem boots_of_loaded (I : Image) (s t : Machine (Devices σ)) (hpacked : Packed I.manifest)
    (h : Loaded I s t) : Boots I s (kernelState soc t) := by
  obtain ⟨hcounter, hstatus⟩ := Prod.mk.inj h.kept.dev
  have hpmp : t.pmp = s.pmp := congrArg (fun c => c.2.2.2.2.2) h.kept.core
  refine ⟨?_, ?_, fun x hx => clearedMem_scratch t.mem x hx, lockedPmp_locked t.pmp, ?_, ?_, rfl⟩
  · rw [← h.payload, ← hpacked.loadAddress]
    apply (clearedMem_changedOnly t.mem).read_eq
    intro x h₁ h₂ hx
    have hlt := hpacked.loadRange x ⟨h₁, h₂⟩
    rw [scratch_iff] at hx
    omega
  · rw [kernelState, h.manifest, hcounter, RollbackCounter.write_toNat]
  · intro hoff
    rw [← lockedPmp_off hoff, ← hpmp]
    rfl
  · rw [kernelState, hstatus]

/-- BootROM refines the policy: against peripherals that answer in time, and a verifier that under
the fused key accepts packed manifests only, every run ends as the first failing check says. -/
theorem bootromMain_follows (I : Image) (s : Machine (Devices σ))
    (hpacked : ∀ (M : Manifest) (sig key : List Byte), soc.script ⟨M.bytes, sig, key⟩ = true →
      Fips180.sha256 key = soc.otpHash.toList → Packed M)
    (hserved : I.ServedBy soc s.dev.spi) :
    ∃ e s', bootromMain soc.platform s = .error e s' ∧
      Follows I s (I.firstFailing soc s.dev.counter) e s' := by
  have hpack : I.Verified soc → Packed I.manifest := fun h => hpacked _ _ _ h.2.2 h.2.1
  obtain ⟨e, s', hrun, hend⟩ := bootromMain_policyEnd soc I s hserved
    fun hverified _ => ⟨(hpack hverified).ramRange soc, (hpack hverified).loadClear⟩
  refine ⟨e, s', hrun, ?_⟩
  generalize hfirst : I.firstFailing soc s.dev.counter = first at hend ⊢
  cases hend with
  | refused k s' h => exact ⟨rfl, h⟩
  | started t h =>
      exact ⟨rfl, boots_of_loaded soc I s t (hpack (I.verified_of_firstFailing soc hfirst)) h⟩

theorem selfLoop_packed : Packed selfLoop.manifest := by
  constructor <;> simp [selfLoop]

theorem selfLoop_follows :
    ∃ e s', bootromMain selfLoop.chip.platform (Image.atReset (fun _ => 0) 0) = .error e s' ∧
      Follows selfLoop (Image.atReset (fun _ => 0) 0) (selfLoop.firstFailing selfLoop.chip 0)
        e s' :=
  bootromMain_follows selfLoop.chip selfLoop (Image.atReset (fun _ => 0) 0)
    (fun _ _ _ h _ => selfLoop.chip_accepts h ▸ selfLoop_packed)
    (selfLoop.chip_serves selfLoop_size.symm _)

end SecureBoot.Bootrom
