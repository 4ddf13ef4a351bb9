import SecureBoot.Bootrom.Outcome
import SecureBoot.Bootrom.Provision

/-!
# What the kernel starts on

For every behaviour of the flash: the memory and the entry address at the
`mret` into the kernel, against the manifest whose signature was accepted.
-/

namespace SecureBoot.Bootrom

open Words Exec

variable {σ : Type} (soc : Soc σ)

/-! ## Loads that keep clear of BootROM's own memory -/

/-- The whole range is DRAM that BootROM neither clears nor uses as stack. -/
def LoadSafe (M : Manifest) : Prop :=
  ∀ x, LoadRange M x → inDram x = true ∧ ¬ Scratch x ∧ ¬ inFrame x = true

theorem LoadSafe.ramRange {M : Manifest} (h : LoadSafe M) :
    soc.platform.RamRange M.loadAddress M.payloadSize := fun x h₁ h₂ => (h x ⟨h₁, h₂⟩).1

theorem LoadSafe.not_hashScratch {M : Manifest} (h : LoadSafe M) (x : Nat) (hx : LoadRange M x) :
    ¬ HashScratch x := by
  intro hs
  obtain ⟨_, hscratch, hframe⟩ := h x hx
  rcases hs with hs | hs
  · exact hscratch (.inr (.inr (.inr (.inr (.inr (.inl hs))))))
  · exact hframe hs

/-- Outside the range nothing moves, so the manifest is still in its buffer. -/
theorem LoadSafe.manifest_kept {mem mem' : Memory} {M : Manifest} (h : LoadSafe M)
    (hman : Manifest.ofMem mem = M) (hmem : Memory.ChangedOnly (LoadRange M) mem mem') :
    Manifest.ofMem mem' = M := by
  rw [← hman]
  refine Manifest.ofMem_congr (hmem.read_eq ?_)
  intro x h₁ h₂ hx
  exact (h x hx).2.1 (.inl ⟨h₁, h₂⟩)

/-- The hash reads a safe range as it is. -/
theorem LoadSafe.messageAt {M : Manifest} (h : LoadSafe M) (s : Machine (Devices σ)) :
    messageAt soc.platform s M.loadAddress M.payloadSize =
      s.mem.read M.loadAddress M.payloadSize :=
  messageAt_of_outside _ _ _ _ fun x h₁ h₂ => (h x ⟨h₁, h₂⟩).2.2

/-- The hash check passed on a safe range: the memory it leaves carries the manifest's hash, and
so does the memory handed over. -/
theorem LoadSafe.handover {M : Manifest} {filled loaded : Machine (Devices σ)} (h : LoadSafe M)
    (hman : Manifest.ofMem filled.mem = M)
    (hverify : verifyPayload soc.platform MANIFEST_BUFFER M.loadAddress filled = .ok () loaded) :
    Fips180.sha256 (filled.mem.read M.loadAddress M.payloadSize) = M.payloadHash ∧
      Manifest.ofMem loaded.mem = M ∧
      (clearedMem loaded.mem).read M.loadAddress M.payloadSize =
        filled.mem.read M.loadAddress M.payloadSize := by
  obtain ⟨mem, hmem, heq⟩ := verifyPayload_eq soc M.loadAddress filled
    (by rw [hman]; exact h.ramRange soc)
  rw [hman, h.messageAt soc filled, hverify] at heq
  by_cases hhash : Fips180.sha256 (filled.mem.read M.loadAddress M.payloadSize) = M.payloadHash
  · rw [if_pos hhash] at heq
    cases heq
    refine ⟨hhash, ?_, ?_⟩
    · rw [← hman]
      refine Manifest.ofMem_congr (hmem.read_eq ?_)
      intro x h₁ h₂ hx
      have haddr := addresses
      rw [hashScratch_iff] at hx
      omega
    · rw [(clearedMem_changedOnly mem).read_eq fun x h₁ h₂ => (h x ⟨h₁, h₂⟩).2.1,
        hmem.read_eq fun x h₁ h₂ => h.not_hashScratch x ⟨h₁, h₂⟩]
  · rw [if_neg hhash] at heq
    cases heq

/-- Up to here a payload at the start of DRAM stays below BootROM's own memory. -/
theorem loadSafe_of_small {M : Manifest} (hload : M.loadAddress = 0x80000000)
    (hsize : M.payloadSize ≤ 0x8000000) : LoadSafe M := by
  intro x hx
  obtain ⟨h₁, h₂⟩ := hx
  rw [Soc.inDram_iff, scratch_iff, inFrame_iff]
  omega

/-! ## Authentic boot -/

/-- `M` is a signed manifest that accounts for the memory the kernel starts on. -/
structure Authentic (M : Manifest) (counter : DWord) (s' : Machine (Devices σ)) : Prop where
  signed : ∃ signature key, soc.script ⟨M.bytes, signature, key⟩ = true ∧
    Fips180.sha256 key = soc.otpHash.toList
  header : M.HeaderOk
  version : counter ≤ M.version
  dram : ∀ x, LoadRange M x → inDram x = true
  hash : Fips180.sha256 (s'.mem.read M.loadAddress M.payloadSize) = M.payloadHash

theorem Accepted.signed {s : Machine (Devices σ)} (h : Accepted soc s) :
    ∃ signature key, soc.script ⟨(Manifest.ofMem s.mem).bytes, signature, key⟩ = true ∧
      Fips180.sha256 key = soc.otpHash.toList :=
  ⟨s.mem.read SIGNATURE_BUFFER 64, s.mem.read PUBLIC_KEY_BUFFER 32, h.signature, h.key⟩

/-- Every boot into a kernel, from a signed manifest whose load range is safe, is authentic. -/
theorem authentic_boot (s s' : Machine (Devices σ))
    (h : bootromMain soc.platform s = .error .kernel s') :
    ∃ accepted loaded, untilStage3 soc.platform s = .ok () accepted ∧
      checkAndLoadKernel soc.platform MANIFEST_BUFFER accepted = .ok () loaded ∧
      (LoadSafe (Manifest.ofMem accepted.mem) →
        Authentic soc (Manifest.ofMem accepted.mem) loaded.dev.counter s') := by
  obtain ⟨accepted, filled, loaded, hrun, hacc, guards, _, read, verify, version, rfl⟩ :=
    bootromMain_kernel soc h
  generalize hM : Manifest.ofMem accepted.mem = M at *
  have hstage : checkAndLoadKernel soc.platform MANIFEST_BUFFER accepted = .ok () loaded := by
    rw [checkAndLoadKernel_load soc accepted (by rwa [hM]), hM, bind_of_ok read, verify]
  refine ⟨accepted, loaded, hrun, hstage, ?_⟩
  rw [hM]
  intro hsafe
  have hfilled := ((payloadRead_wp soc M accepted).ok read).2
  obtain ⟨hhash, hman, hread⟩ := hsafe.handover soc (hsafe.manifest_kept hM hfilled.mem) verify
  rw [hman] at version
  have hheader := hacc.header
  have hsigned := hacc.signed
  rw [hM] at hheader hsigned
  refine ⟨hsigned, hheader, version, fun x hx => (hsafe x hx).1, ?_⟩
  rw [kernelState_mem, hread, hhash]

theorem selfLoop_authentic :
    ∃ (s' loaded : Machine (Devices IdealFlash)),
      bootromMain selfLoop.chip.platform (Image.atReset (fun _ => 0) 0) = .error .kernel s' ∧
      Authentic selfLoop.chip selfLoop.manifest loaded.dev.counter s' := by
  obtain ⟨t, hrun⟩ := selfLoop_boots
  obtain ⟨accepted, loaded, hstages, _, hauthentic⟩ := authentic_boot selfLoop.chip _ _ hrun
  have hM := selfLoop.chip_untilStage3 hstages
  rw [hM] at hauthentic
  exact ⟨_, loaded, hrun, hauthentic (loadSafe_of_small selfLoop_load
    (by rw [selfLoop_size]; omega))⟩

/-- A one-byte payload signed for the chunk buffer, which Stage 5 clears. -/
def inScratch : Image :=
  .firmware 1 0x88000400 0x88000400 [0x01] [0x01]
    (ofHex 32 0x1b2db38382e65bcb88315c726bdd3564fda879dc40392c29ca153fde47fe1d6f ++
      ofHex 32 0xbc65de124d4e1e8757fdfdb535cf6889f7e3a9a4daae3c580f045e122b569a01) (by decide)

theorem inScratch_not_authentic :
    ∃ s', bootromMain inScratch.chip.platform (Image.atReset (fun _ => 0) 0) = .error .kernel s' ∧
      ¬ ∃ M counter, Authentic inScratch.chip M counter s' := by
  have hload : inScratch.manifest.loadAddress = 0x88000400 := by simp [inScratch]
  have hsize : inScratch.manifest.payloadSize = 1 := by simp [inScratch]
  have hhash : inScratch.manifest.payloadHash = Fips180.sha256 [0x01] := by simp [inScratch]
  have hclear : LoadClear inScratch.manifest := by
    intro x hx
    have haddr := addresses
    rw [LoadRange, hload, hsize, Within] at hx
    rw [hashScratch_iff, Within]
    omega
  have hplaced : inScratch.Placed := ⟨hsize.symm, by omega, by omega, by omega, hclear⟩
  obtain ⟨t, hrun⟩ := hplaced.chip_boots (fun _ => 0) 0
    (Manifest.pack_headerOk _ _ _ _ _ (Fips180.sha256_length _)) hhash.symm (by decide)
  refine ⟨_, hrun, ?_⟩
  intro h
  rcases h with ⟨M, counter, ⟨signature, key, haccept, _⟩, _, _, _, hdigest⟩
  have hM := inScratch.chip_accepts haccept
  have hzero : clearedMem t.mem 0x88000400 = 0 := by
    apply clearedMem_scratch
    rw [scratch_iff]
    omega
  rw [hM, hload, hsize, hhash, Memory.read_one, kernelState_mem, hzero] at hdigest
  exact absurd hdigest (by decide +kernel)

/-! ## Verified entry -/

/-- The bytes of an instruction, by its first one: the compressed ones have two. -/
def instructionLength (first : Byte) : Nat := if first &&& 3 = 3 then 4 else 2

/-- The hart enters the signed entry point, and the whole instruction it fetches there lies in the
loaded range and is that of `payload`, which has the signed hash. -/
structure VerifiedEntry (M : Manifest) (payload : List Byte) (s' : Machine (Devices σ)) :
    Prop where
  entry : s'.mepc = M.entryPoint
  hash : Fips180.sha256 payload = M.payloadHash
  inside : ∀ i < instructionLength (s'.mem s'.mepc), LoadRange M (s'.mepc + i)
  fetched : ∀ i < instructionLength (s'.mem s'.mepc),
    s'.mem (s'.mepc + i) = payload.getD (s'.mepc + i - M.loadAddress) 0

/-- The signed entry point is the constant BootROM jumps to, the payload goes there, and it has the
whole of its first instruction. -/
structure Enterable (M : Manifest) (payload : List Byte) : Prop where
  entry : M.entryPoint = 0x80000000
  load : M.loadAddress = 0x80000000
  first : instructionLength (payload.getD 0 0) ≤ M.payloadSize

/-- What of a payload for the start of DRAM lands on the size and the hash in the manifest buffer is
what these fields say already, and it ends below the frames of the hash. -/
def KeepsFields (M : Manifest) (payload : List Byte) : Prop :=
  M.payloadSize ≤ 0x800FDC0 ∧
    ∀ i, (12 ≤ i ∧ i < 16) ∨ (32 ≤ i ∧ i < 64) → 0x8000000 + i < M.payloadSize →
      payload.getD (0x8000000 + i) 0 = M.bytes.getD i 0

theorem keepsFields_of_small {M : Manifest} (payload : List Byte) (h : M.payloadSize ≤ 0x8000000) :
    KeepsFields M payload :=
  ⟨Nat.le_trans h (by decide), fun i _ hi => absurd h (by omega)⟩

theorem instructionLength_bounds (first : Byte) :
    0 < instructionLength first ∧ instructionLength first ≤ 4 := by
  unfold instructionLength
  split <;> decide

/-- Only the constant is entered. -/
theorem VerifiedEntry.enterable {M : Manifest} {payload : List Byte} {t : Machine (Devices σ)}
    (h : VerifiedEntry M payload (kernelState soc t)) (hguard : ¬ LoadRefused M) :
    Enterable M payload := by
  have haddr := addresses
  obtain ⟨hentry, _, hinside, hfetched⟩ := h
  rw [kernelState_mepc] at hentry hinside hfetched
  have hlen := (instructionLength_bounds ((kernelState soc t).mem 0x80000000)).1
  have hrange := hinside 0 hlen
  have hlast := (hinside _ (Nat.sub_lt hlen Nat.one_pos)).2
  unfold LoadRefused at hguard
  unfold LoadRange Within at hrange
  have hload : M.loadAddress = 0x80000000 := by omega
  have hfirst := hfetched 0 hlen
  rw [hload, Nat.add_zero, Nat.sub_self] at hfirst
  refine ⟨hentry.symm, hload, ?_⟩
  rw [← hfirst]
  omega

/-- Behind such a payload the buffer still has the size and the hash of the manifest. -/
theorem KeepsFields.kept {M : Manifest} {payload : List Byte} (h : KeepsFields M payload)
    (hlen : payload.length = M.payloadSize) {mem : Memory} (hM : Manifest.ofMem mem = M) :
    (Manifest.ofMem (mem.write 0x80000000 payload)).payloadSize = M.payloadSize ∧
      (Manifest.ofMem (mem.write 0x80000000 payload)).payloadHash = M.payloadHash := by
  have hfield : ∀ i, (12 ≤ i ∧ i < 16) ∨ (32 ≤ i ∧ i < 64) →
      mem.write 0x80000000 payload (0x88000000 + i) = mem (0x88000000 + i) := by
    intro i hi
    by_cases hin : 0x8000000 + i < M.payloadSize
    · have hbyte : M.bytes.getD i 0 = mem (0x88000000 + i) := by
        rw [← hM]
        exact Memory.read_getD mem MANIFEST_BUFFER 96 i (by omega)
      have hindex : 0x88000000 + i - 0x80000000 = 0x8000000 + i := by omega
      rw [Memory.write_apply_of_inside mem _ payload (0x88000000 + i) (by omega) (by omega), hindex,
        h.2 i hi hin, hbyte]
    · exact Memory.write_apply_of_outside _ _ _ _ (by omega)
  constructor
  · rw [← hM, Manifest.payloadSize, Manifest.payloadSize, Manifest.ofMem_word _ _ (by decide),
      Manifest.ofMem_word _ _ (by decide), Memory.word, Memory.word]
    congr 2
    · exact hfield 12 (by omega)
    · exact hfield 13 (by omega)
    · exact hfield 14 (by omega)
    · exact hfield 15 (by omega)
  · rw [← hM, Manifest.ofMem_payloadHash, Manifest.ofMem_payloadHash]
    refine Memory.read_congr fun i hi => ?_
    have hat := hfield (32 + i) (by omega)
    rwa [← Nat.add_assoc] at hat

/-- So the payload is hashed as it was delivered. -/
theorem KeepsFields.verifies {M : Manifest} {payload : List Byte} (h : KeepsFields M payload)
    (hlen : payload.length = M.payloadSize) {accepted filled loaded : Machine (Devices σ)}
    (hM : Manifest.ofMem accepted.mem = M)
    (hfilled : filled.mem = accepted.mem.write 0x80000000 payload)
    (hverify : verifyPayload soc.platform MANIFEST_BUFFER 0x80000000 filled = .ok () loaded) :
    Fips180.sha256 payload = M.payloadHash := by
  obtain ⟨hsize, hhash⟩ := h.kept hlen hM
  rw [← hfilled] at hsize hhash
  have hend := h.1
  obtain ⟨mem, _, heq⟩ := verifyPayload_eq soc 0x80000000 filled
    (by rw [hsize]; exact soc.ramRange _ _ (by omega) (by omega))
  have hmessage : messageAt soc.platform filled 0x80000000 M.payloadSize = payload := by
    rw [messageAt_of_outside, hfilled, Memory.read_write_same_of_length _ _ _ _ hlen]
    intro x h₁ h₂ hframe
    rw [inFrame_iff] at hframe
    omega
  rw [hsize, hhash, hmessage, hverify] at heq
  by_contra hne
  rw [if_neg hne] at heq
  cases heq

/-- Below BootROM's own memory the kernel finds what the load left. -/
theorem kernelState_low {filled loaded : Machine (Devices σ)}
    (hloaded : Memory.ChangedOnly HashScratch filled.mem loaded.mem) (x : Nat)
    (hx : x < 0x88000000) : (kernelState soc loaded).mem x = filled.mem x := by
  have hclear : clearedMem loaded.mem x = loaded.mem x := by
    apply clearedMem_changedOnly
    rw [scratch_iff]
    omega
  rw [kernelState_mem, hclear]
  apply hloaded
  rw [hashScratch_iff]
  omega

/-- BootROM jumps to a constant. A boot whose payload ends below BootROM's own memory enters a
verified instruction exactly when the manifest asks for that constant and the payload has an
instruction there; a longer one does if it leaves size and hash in the manifest buffer alone. -/
theorem verifiedEntry_iff (s s' : Machine (Devices σ))
    (h : bootromMain soc.platform s = .error .kernel s') :
    ∃ accepted M, untilStage3 soc.platform s = .ok () accepted ∧
      Manifest.ofMem accepted.mem = M ∧
      (∀ payload, VerifiedEntry M payload s' → Enterable M payload) ∧
      (M.loadAddress = 0x80000000 → ∃ payload d',
        soc.platform.spiPort.Serves MAX_SPIN KERNEL_OFFSET (M.word PAYLOAD_SIZE) accepted.dev
          payload d' ∧
        (M.payloadSize ≤ 0x8000000 → (VerifiedEntry M payload s' ↔ Enterable M payload)) ∧
        (KeepsFields M payload → Enterable M payload → VerifiedEntry M payload s')) := by
  obtain ⟨accepted, filled, loaded, hrun, hacc, guards, mapped, read, verify, version, rfl⟩ :=
    bootromMain_kernel soc h
  generalize hM : Manifest.ofMem accepted.mem = M at *
  have honly : ∀ payload, VerifiedEntry M payload (kernelState soc loaded) →
      Enterable M payload := fun payload hentry => hentry.enterable soc guards
  refine ⟨accepted, M, hrun, hM, honly, fun hload => ?_⟩
  -- behind DRAM nothing answers, so the payload has ended before
  have hend : M.payloadSize ≤ 0x10000000 := by
    by_contra hlong
    have hanswers : (inDram 0x90000000 || inWindows 0x90000000) = true :=
      mapped 0x90000000 ⟨by omega, by omega⟩
    exact absurd hanswers (by decide)
  rw [hload] at read verify
  obtain ⟨payload, hserves, hfilled⟩ := readFlash_answered soc.platform _ _ _ _ _
    (soc.ramRange _ _ (by omega) (by exact Nat.add_le_add_left hend _)) read
  have hlen : payload.length = M.payloadSize := hserves.length_eq
  have hloaded := (verifyPayload_wp soc 0x80000000 filled).ok verify
  have hfirst : ∀ i < 4, i < M.payloadSize →
      (kernelState soc loaded).mem (0x80000000 + i) = payload.getD i 0 := by
    intro i hi hin
    rw [kernelState_low soc hloaded.mem (0x80000000 + i) (by omega), hfilled,
      Memory.write_apply_of_inside _ _ payload (0x80000000 + i) (by omega) (by omega),
      Nat.add_sub_cancel_left]
  have henters : KeepsFields M payload → Enterable M payload →
      VerifiedEntry M payload (kernelState soc loaded) := by
    intro hkeeps henterable
    have hwhole := henterable.first
    have hbounds := instructionLength_bounds (payload.getD 0 0)
    have hbyte := hfirst 0 (by omega) (by omega)
    rw [Nat.add_zero] at hbyte
    refine ⟨henterable.entry.symm, hkeeps.verifies soc hlen hM hfilled verify, ?_, ?_⟩
    · intro i hi
      rw [kernelState_mepc, hbyte] at hi
      rw [kernelState_mepc, LoadRange, Within, hload]
      omega
    · intro i hi
      rw [kernelState_mepc, hbyte] at hi
      rw [kernelState_mepc, hload, Nat.add_sub_cancel_left]
      exact hfirst i (by omega) (by omega)
  exact ⟨payload, _, hserves,
    fun hsmall => ⟨honly payload, henters (keepsFields_of_small payload hsmall)⟩, henters⟩

theorem selfLoop_verifiedEntry :
    ∃ s' payload, bootromMain selfLoop.chip.platform (Image.atReset (fun _ => 0) 0) =
        .error .kernel s' ∧ VerifiedEntry selfLoop.manifest payload s' := by
  obtain ⟨t, hrun⟩ := selfLoop_boots
  obtain ⟨accepted, M, hstages, hM, _, hiff⟩ := verifiedEntry_iff selfLoop.chip _ _ hrun
  have haccepted := selfLoop.chip_untilStage3 hstages
  rw [haccepted] at hM
  subst hM
  obtain ⟨payload, d', _, hsmall, _⟩ := hiff selfLoop_load
  refine ⟨_, payload, hrun, (hsmall (by rw [selfLoop_size]; omega)).mpr ⟨?_, selfLoop_load, ?_⟩⟩
  · simp [selfLoop]
  · rw [selfLoop_size]
    exact (instructionLength_bounds _).2

/-- The one-instruction kernel, signed for another address. -/
def elsewhere : Image :=
  .firmware 1 0x80200000 0x80200000 [0x6F, 0, 0, 0] [0x6F, 0, 0, 0]
    (ofHex 32 0xdf079bcbc3554dfd64e45e7c6e42ac4a594549102afa2470a163f279a9dda446 ++
      ofHex 32 0xeea02de5c675c8624b1f2bc261ee7b44089cc5190627c26c7afd1a7c6a9a9b09) (by decide)

theorem elsewhere_not_verifiedEntry :
    ∃ s', bootromMain elsewhere.chip.platform (Image.atReset (fun _ => 0) 0) = .error .kernel s' ∧
      ¬ ∃ M signature key payload, elsewhere.chip.script ⟨M.bytes, signature, key⟩ = true ∧
        VerifiedEntry M payload s' := by
  have hload : elsewhere.manifest.loadAddress = 0x80200000 := by simp [elsewhere]
  have hsize : elsewhere.manifest.payloadSize = 4 := by simp [elsewhere]
  have hhash : elsewhere.manifest.payloadHash = Fips180.sha256 [0x6F, 0, 0, 0] := by
    simp [elsewhere]
  have hplaced : elsewhere.Placed :=
    Image.placed_below hsize.symm (by omega) (by omega) (by rw [hload, hsize]; decide)
  obtain ⟨t, hrun⟩ := hplaced.chip_boots (fun _ => 0) 0
    (Manifest.pack_headerOk _ _ _ _ _ (Fips180.sha256_length _)) hhash.symm (by decide)
  refine ⟨_, hrun, ?_⟩
  intro h
  rcases h with ⟨M, signature, key, payload, haccept, hentry⟩
  have hM := elsewhere.chip_accepts haccept
  have hinside := hentry.inside 0 (instructionLength_bounds _).1
  rw [kernelState_mepc, hM, LoadRange, hload, hsize, Within] at hinside
  omega

end SecureBoot.Bootrom
