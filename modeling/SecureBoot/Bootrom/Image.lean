import SecureBoot.Bootrom.Run

/-!
# Flash images

What the tools put into the flash, and the run of BootROM on a port that
serves an image, as far as Stage 4.
-/

namespace SecureBoot.Bootrom

open Words Exec

variable {σ : Type} (soc : Soc σ)

/-- What one boot reads from the flash. -/
structure Image where
  manifest : Manifest
  signature : List Byte
  publicKey : List Byte
  payload : List Byte
  signature_length : signature.length = 64
  publicKey_length : publicKey.length = 32

namespace Image

variable (I : Image)

def KeyOk : Prop := Fips180.sha256 I.publicKey = soc.otpHash.toList

def SignatureOk : Prop := soc.script ⟨I.manifest.bytes, I.signature, I.publicKey⟩ = true

/-- Stages 0 to 2. -/
def Verified : Prop := I.manifest.HeaderOk ∧ I.KeyOk soc ∧ I.SignatureOk soc

/-- Stage 3: size, address, hash. -/
def PayloadOk : Prop := ¬ LoadRefused I.manifest ∧ Fips180.sha256 I.payload = I.manifest.payloadHash

instance : Decidable (I.KeyOk soc) := inferInstanceAs (Decidable (_ = _))
instance : Decidable (I.SignatureOk soc) := inferInstanceAs (Decidable (_ = _))
instance (M : Manifest) : Decidable (LoadRefused M) := inferInstanceAs (Decidable (_ ∨ _))
instance : Decidable I.PayloadOk := inferInstanceAs (Decidable (_ ∧ _))

/-- The port answers the reads of a boot in time, the payload only if it comes to that. -/
def ServedBy (q : σ) : Prop :=
  ∃ q₁ q₂ q₃,
    soc.port.Serves MAX_SPIN MANIFEST_OFFSET MANIFEST_SIZE q I.manifest.bytes q₁ ∧
    soc.port.Serves MAX_SPIN SIGNATURE_OFFSET SIGNATURE_SIZE q₁ I.signature q₂ ∧
    soc.port.Serves MAX_SPIN PUBLIC_KEY_OFFSET PUBLIC_KEY_SIZE q₂ I.publicKey q₃ ∧
    (I.Verified soc → ¬ LoadRefused I.manifest →
      ∃ q₄, soc.port.Serves MAX_SPIN KERNEL_OFFSET (I.manifest.word PAYLOAD_SIZE) q₃ I.payload q₄)

/-! ## The boot parts in memory -/

def partsMem (mem : Memory) : Memory :=
  ((mem.write MANIFEST_BUFFER I.manifest.bytes).write SIGNATURE_BUFFER I.signature).write
    PUBLIC_KEY_BUFFER I.publicKey

theorem partsMem_manifest (mem : Memory) :
    (I.partsMem mem).read MANIFEST_BUFFER 96 = I.manifest.bytes := by
  have haddr := addresses
  have hsig := I.signature_length
  have hkey := I.publicKey_length
  rw [partsMem, Memory.read_write_disjoint _ _ _ _ _ (by omega),
    Memory.read_write_disjoint _ _ _ _ _ (by omega),
    Memory.read_write_same_of_length _ _ _ _ I.manifest.length_eq]

theorem partsMem_signature (mem : Memory) :
    (I.partsMem mem).read SIGNATURE_BUFFER 64 = I.signature := by
  have haddr := addresses
  have hkey := I.publicKey_length
  rw [partsMem, Memory.read_write_disjoint _ _ _ _ _ (by omega),
    Memory.read_write_same_of_length _ _ _ _ I.signature_length]

theorem partsMem_publicKey (mem : Memory) :
    (I.partsMem mem).read PUBLIC_KEY_BUFFER 32 = I.publicKey := by
  rw [partsMem, Memory.read_write_same_of_length _ _ _ _ I.publicKey_length]

theorem ofMem_partsMem (mem : Memory) : Manifest.ofMem (I.partsMem mem) = I.manifest := by
  simp only [Manifest.ofMem, I.partsMem_manifest mem]

theorem stagedFiles_partsMem (mem : Memory) :
    stagedFiles (I.partsMem mem) = ⟨I.manifest.bytes, I.signature, I.publicKey⟩ := by
  rw [stagedFiles, partsMem_manifest, partsMem_signature, partsMem_publicKey]

theorem keyOk_partsMem (mem : Memory) : Bootrom.KeyOk soc (I.partsMem mem) ↔ I.KeyOk soc := by
  rw [Bootrom.KeyOk, partsMem_publicKey, KeyOk]

theorem signatureOk_partsMem (mem : Memory) :
    Bootrom.SignatureOk soc (I.partsMem mem) ↔ I.SignatureOk soc := by
  rw [Bootrom.SignatureOk, stagedFiles_partsMem, SignatureOk]

theorem partsMem_changedOnly (mem : Memory) :
    Memory.ChangedOnly BootArea mem (I.partsMem mem) := by
  have haddr := addresses
  have hsig := I.signature_length
  have hkey := I.publicKey_length
  have hman := I.manifest.length_eq
  refine ((Memory.write_changedOnly _ _ _ ?_).trans (Memory.write_changedOnly _ _ _ ?_)).trans
    (Memory.write_changedOnly _ _ _ ?_)
  all_goals
    intro x h₁ h₂
    exact ⟨by omega, by omega⟩

end Image

/-- The machine with the boot parts in their buffers. -/
def withParts (I : Image) (q : σ) (s : Machine (Devices σ)) : Machine (Devices σ) :=
  { s with mem := I.partsMem s.mem, dev := { s.dev with spi := q } }

theorem readFlash_port (offset total : Word) (output : Nat) (s : Machine (Devices σ))
    (bs : List Byte) (q : σ) (hram : soc.platform.RamRange output total.toNat)
    (h : soc.port.Serves MAX_SPIN offset total s.dev.spi bs q) :
    readFlash soc.platform offset total output s =
      .ok () { s with mem := s.mem.write output bs, dev := { s.dev with spi := q } } :=
  readFlash_serves soc.platform offset total output s bs _ hram (h.lift (soc.embeds s.dev))

theorem readBootParts_serves (I : Image) (s : Machine (Devices σ)) (q₁ q₂ q₃ : σ)
    (h₁ : soc.port.Serves MAX_SPIN MANIFEST_OFFSET MANIFEST_SIZE s.dev.spi I.manifest.bytes q₁)
    (h₂ : soc.port.Serves MAX_SPIN SIGNATURE_OFFSET SIGNATURE_SIZE q₁ I.signature q₂)
    (h₃ : soc.port.Serves MAX_SPIN PUBLIC_KEY_OFFSET PUBLIC_KEY_SIZE q₂ I.publicKey q₃) :
    readBootParts soc.platform s = .ok () (withParts I q₃ s) := by
  have hm := readFlash_port soc _ _ MANIFEST_BUFFER s _ _
    (soc.bufferRam _ _) h₁
  have hs := readFlash_port soc _ _ SIGNATURE_BUFFER
    { s with
      mem := s.mem.write MANIFEST_BUFFER I.manifest.bytes, dev := { s.dev with spi := q₁ } } _ _
    (soc.bufferRam _ _) h₂
  have hk := readFlash_port soc _ _ PUBLIC_KEY_BUFFER
    { s with
      mem := (s.mem.write MANIFEST_BUFFER I.manifest.bytes).write SIGNATURE_BUFFER I.signature
      dev := { s.dev with spi := q₂ } } _ _
    (soc.bufferRam _ _) h₃
  rw [readBootParts, bind_of_ok hm, bind_of_ok hs, hk]
  rfl

/-! ## The verified payload in memory -/

theorem withParts_kept (I : Image) (q : σ) (s : Machine (Devices σ)) :
    Kept BootArea Soc.registers s (withParts I q s) :=
  ⟨I.partsMem_changedOnly s.mem, rfl, rfl⟩


/-- Before Stage 4: the payload is where the manifest wants it, the manifest still in its buffer. -/
structure Loaded (I : Image) (s t : Machine (Devices σ)) : Prop where
  manifest : Manifest.ofMem t.mem = I.manifest
  payload : t.mem.read I.manifest.loadAddress I.manifest.payloadSize = I.payload
  kept : Kept (fun x => BootArea x ∨ LoadRange I.manifest x) Soc.registers s t

/-- Clear of the manifest buffer and of what the hash writes. -/
def LoadClear (M : Manifest) : Prop :=
  ∀ x, LoadRange M x → ¬ Within MANIFEST_BUFFER 96 x ∧ ¬ HashScratch x

theorem loadClear_below {M : Manifest} (h : M.loadAddress + M.payloadSize ≤ BOOT_SCRATCH_BASE) :
    LoadClear M := by
  have haddr := addresses
  have hbase : BOOT_SCRATCH_BASE = 0x88000000 := rfl
  intro x hx
  have htop := hx.2
  rw [hashScratch_iff, Within]
  omega

/-- The manifest that the load of the payload leaves in the manifest buffer. -/
def Image.reloaded (I : Image) : Manifest :=
  .ofMem ((Memory.write (fun _ => 0) MANIFEST_BUFFER I.manifest.bytes).write
    I.manifest.loadAddress I.payload)

theorem Image.reloaded_eq (I : Image) (mem : Memory) (hman : Manifest.ofMem mem = I.manifest) :
    Manifest.ofMem (mem.write I.manifest.loadAddress I.payload) = I.reloaded := by
  have hbytes : mem.read MANIFEST_BUFFER 96 = I.manifest.bytes := congrArg Manifest.bytes hman
  have hlen := I.manifest.length_eq
  apply Manifest.ofMem_congr
  apply Memory.read_congr
  intro i hi
  by_cases hin : I.manifest.loadAddress ≤ MANIFEST_BUFFER + i ∧
      MANIFEST_BUFFER + i < I.manifest.loadAddress + I.payload.length
  · rw [Memory.write_apply_of_inside _ _ _ _ hin.1 hin.2,
      Memory.write_apply_of_inside _ _ _ _ hin.1 hin.2]
  · rw [Memory.write_apply_of_outside _ _ _ _ (by omega),
      Memory.write_apply_of_outside _ _ _ _ (by omega),
      Memory.write_apply_of_inside _ _ _ _ (by omega) (by omega), Nat.add_sub_cancel_left, ← hbytes,
      Memory.read_getD _ _ _ _ hi]

/-- A load beside the manifest buffer leaves the manifest as it was. -/
theorem Image.reloaded_of_clear (I : Image) (hclear : ∀ x,
    Within I.manifest.loadAddress I.payload.length x → ¬ Within MANIFEST_BUFFER 96 x) :
    I.reloaded = I.manifest := by
  have hbytes : ((Memory.write (fun _ => 0) MANIFEST_BUFFER I.manifest.bytes).write
      I.manifest.loadAddress I.payload).read MANIFEST_BUFFER 96 = I.manifest.bytes := by
    rw [(Memory.write_changedOnly _ _ _ fun x h₁ h₂ => ⟨h₁, h₂⟩ : Memory.ChangedOnly
      (Within I.manifest.loadAddress I.payload.length) _ _).read_eq
        fun x h₁ h₂ hx => hclear x hx ⟨h₁, h₂⟩,
      Memory.read_write_same_of_length _ _ _ _ I.manifest.length_eq]
  simp only [reloaded, Manifest.ofMem, hbytes]

theorem hashScratch_kept {mem mem' : Memory} (h : Memory.ChangedOnly HashScratch mem mem') :
    Manifest.ofMem mem' = Manifest.ofMem mem := by
  have haddr := addresses
  apply Manifest.ofMem_congr
  apply h.read_eq
  intro x h₁ h₂ hx
  rw [hashScratch_iff] at hx
  omega

/-- Stage 3 on a served payload: hash and version are those that the load leaves in the manifest
buffer. -/
theorem checkAndLoadKernel_reloaded (I : Image) (s : Machine (Devices σ)) (q : σ)
    (hman : Manifest.ofMem s.mem = I.manifest) (hguard : ¬ LoadRefused I.manifest)
    (hram : soc.platform.RamRange I.manifest.loadAddress I.manifest.payloadSize)
    (hframe : ∀ x, LoadRange I.manifest x → ¬ inFrame x = true)
    (hserves : soc.port.Serves MAX_SPIN KERNEL_OFFSET (I.manifest.word PAYLOAD_SIZE) s.dev.spi
      I.payload q)
    (hsize : I.reloaded.payloadSize = I.manifest.payloadSize) :
    ∃ mem, Manifest.ofMem mem = I.reloaded ∧
      Memory.ChangedOnly HashScratch (s.mem.write I.manifest.loadAddress I.payload) mem ∧
      checkAndLoadKernel soc.platform MANIFEST_BUFFER s =
        if Fips180.sha256 I.payload = I.reloaded.payloadHash then
          .ok () { s with mem := mem, dev := { s.dev with spi := q } }
        else .error .recovery (recoveryState soc.platform SR_LOAD_KERNEL
          { s with mem := mem, dev := { s.dev with spi := q } }) := by
  have hfill := readFlash_port soc KERNEL_OFFSET (I.manifest.word PAYLOAD_SIZE)
    I.manifest.loadAddress s I.payload q hram hserves
  have hreloaded := I.reloaded_eq s.mem hman
  have hdelivered := Memory.read_write_same_of_length s.mem I.manifest.loadAddress I.payload
    I.manifest.payloadSize hserves.length_eq
  generalize s.mem.write I.manifest.loadAddress I.payload = filled
    at hfill hreloaded hdelivered ⊢
  obtain ⟨mem, hmem, hverify⟩ := verifyPayload_eq soc I.manifest.loadAddress
    { s with mem := filled, dev := { s.dev with spi := q } } (by rw [hreloaded, hsize]; exact hram)
  have hmsg : messageAt soc.platform { s with mem := filled, dev := { s.dev with spi := q } }
      I.manifest.loadAddress I.manifest.payloadSize = I.payload :=
    (messageAt_of_outside _ _ _ _ fun x h₁ h₂ => hframe x ⟨h₁, h₂⟩).trans hdelivered
  refine ⟨mem, (hashScratch_kept hmem).trans hreloaded, hmem, ?_⟩
  rw [checkAndLoadKernel_load soc s (by rwa [hman]), hman, bind_of_ok hfill, hverify, hreloaded,
    hsize, hmsg]

/-- Stage 3 on a served payload whose range is clear: the verdict is that of the hash. -/
theorem checkAndLoadKernel_serves (I : Image) (s : Machine (Devices σ)) (q : σ)
    (hman : Manifest.ofMem s.mem = I.manifest) (hguard : ¬ LoadRefused I.manifest)
    (hram : soc.platform.RamRange I.manifest.loadAddress I.manifest.payloadSize)
    (hclear : LoadClear I.manifest)
    (hserves : soc.port.Serves MAX_SPIN KERNEL_OFFSET (I.manifest.word PAYLOAD_SIZE) s.dev.spi
      I.payload q) :
    ∃ mem, Manifest.ofMem mem = I.manifest ∧
      mem.read I.manifest.loadAddress I.manifest.payloadSize = I.payload ∧
      Memory.ChangedOnly (fun x => HashScratch x ∨ LoadRange I.manifest x) s.mem mem ∧
      checkAndLoadKernel soc.platform MANIFEST_BUFFER s =
        if Fips180.sha256 I.payload = I.manifest.payloadHash then
          .ok () { s with mem := mem, dev := { s.dev with spi := q } }
        else .error .recovery (recoveryState soc.platform SR_LOAD_KERNEL
          { s with mem := mem, dev := { s.dev with spi := q } }) := by
  have hlen : I.payload.length = I.manifest.payloadSize := hserves.length_eq
  have hwritten : Memory.ChangedOnly (LoadRange I.manifest) s.mem
      (s.mem.write I.manifest.loadAddress I.payload) :=
    Memory.write_changedOnly _ _ _ fun x h₁ h₂ => ⟨h₁, by rwa [hlen] at h₂⟩
  have hkept : I.reloaded = I.manifest :=
    I.reloaded_of_clear fun x hx => (hclear x (by rwa [hlen] at hx)).1
  obtain ⟨mem, hofMem, hmem, hload⟩ := checkAndLoadKernel_reloaded soc I s q hman hguard hram
    (fun x hx hframe => (hclear x hx).2 (.inr hframe)) hserves (by rw [hkept])
  rw [hkept] at hofMem hload
  refine ⟨mem, hofMem, ?_, ?_, hload⟩
  · rw [hmem.read_eq fun x h₁ h₂ hx => (hclear x ⟨h₁, h₂⟩).2 hx,
      Memory.read_write_same_of_length _ _ _ _ hlen]
  · exact (hwritten.mono fun x hx => .inr hx).trans (hmem.mono fun x hx => .inl hx)

/-- A run whose first three checks pass, up to Stage 3. -/
theorem bootromMain_verified (I : Image) (s : Machine (Devices σ))
    (hserved : I.ServedBy soc s.dev.spi) (hverified : I.Verified soc) :
    ∃ mem q v, Manifest.ofMem mem = I.manifest ∧ Memory.ChangedOnly BootArea s.mem mem ∧
      (¬ LoadRefused I.manifest → ∃ q', soc.port.Serves MAX_SPIN KERNEL_OFFSET
        (I.manifest.word PAYLOAD_SIZE) q I.payload q') ∧
      bootromMain soc.platform s = afterVerify soc.platform
        { s with mem := mem, dev := { s.dev with spi := q, ed25519 := v } } := by
  obtain ⟨q₁, q₂, q₃, h₁, h₂, h₃, h₄⟩ := hserved
  have hpayload := h₄ hverified
  obtain ⟨hheader, hkey, hsig⟩ := hverified
  have hparts := readBootParts_serves soc I s q₁ q₂ q₃ h₁ h₂ h₃
  obtain ⟨mem, v, hmem, hverify⟩ := afterParts_verified soc (withParts I q₃ s)
    (by rw [withParts, I.ofMem_partsMem]; exact hheader)
    ((I.keyOk_partsMem soc s.mem).mpr hkey) ((I.signatureOk_partsMem soc s.mem).mpr hsig)
  refine ⟨mem, q₃, v, (manifest_kept hmem).trans (I.ofMem_partsMem s.mem), ?_, hpayload, ?_⟩
  · exact (I.partsMem_changedOnly s.mem).trans (hmem.mono keyScratch_bootArea)
  · rw [bootromMain_eq, bind_of_ok hparts, hverify]
    rfl

/-- The same run with a range in DRAM and off the stack: hash and version decide as the load leaves
them in the manifest buffer. -/
theorem bootromMain_kernel_iff (I : Image) (s : Machine (Devices σ))
    (hserved : I.ServedBy soc s.dev.spi) (hverified : I.Verified soc)
    (hguard : ¬ LoadRefused I.manifest)
    (hram : soc.platform.RamRange I.manifest.loadAddress I.manifest.payloadSize)
    (hframe : ∀ x, LoadRange I.manifest x → ¬ inFrame x = true)
    (hsize : I.reloaded.payloadSize = I.manifest.payloadSize) :
    (∃ s', bootromMain soc.platform s = .error .kernel s') ↔
      Fips180.sha256 I.payload = I.reloaded.payloadHash ∧ s.dev.counter ≤ I.reloaded.version := by
  obtain ⟨mem₁, q, v, hman₁, _, hpayload, hrun⟩ := bootromMain_verified soc I s hserved hverified
  obtain ⟨q', hserves⟩ := hpayload hguard
  obtain ⟨mem, hman, _, hload⟩ := checkAndLoadKernel_reloaded soc I
    { s with mem := mem₁, dev := { s.dev with spi := q, ed25519 := v } } q' hman₁ hguard hram
    hframe hserves hsize
  rw [hrun, afterVerify]
  by_cases hhash : Fips180.sha256 I.payload = I.reloaded.payloadHash
  case neg =>
    rw [if_neg hhash] at hload
    rw [bind_of_error hload]
    constructor
    · intro h
      rcases h with ⟨_, h⟩
      cases h
    · intro h
      exact absurd h.1 hhash
  rw [if_pos hhash] at hload
  rw [bind_of_ok hload]
  by_cases hversion : I.reloaded.version < s.dev.counter
  · rw [afterLoad_refuses soc _ (by rwa [hman])]
    constructor
    · intro h
      rcases h with ⟨_, h⟩
      cases h
    · intro h
      exact absurd hversion (BitVec.not_lt.mpr h.2)
  · have hle := BitVec.not_lt.mp hversion
    rw [afterLoad_accepts soc _ (by rwa [hman])]
    exact ⟨fun _ => ⟨hhash, hle⟩, fun _ => ⟨_, rfl⟩⟩

/-- The same run up to Stage 4. -/
theorem bootromMain_loads (I : Image) (s : Machine (Devices σ)) (hserved : I.ServedBy soc s.dev.spi)
    (hverified : I.Verified soc) (hguard : ¬ LoadRefused I.manifest)
    (hram : soc.platform.RamRange I.manifest.loadAddress I.manifest.payloadSize)
    (hclear : LoadClear I.manifest) :
    ∃ t, Loaded I s t ∧ bootromMain soc.platform s =
      if Fips180.sha256 I.payload = I.manifest.payloadHash then afterLoad soc.platform t
      else .error .recovery (recoveryState soc.platform SR_LOAD_KERNEL t) := by
  obtain ⟨mem₁, q, v, hman₁, hmem₁, hpayload, hrun⟩ :=
    bootromMain_verified soc I s hserved hverified
  obtain ⟨q', hserves⟩ := hpayload hguard
  obtain ⟨mem, hman, hread, hmem, hload⟩ := checkAndLoadKernel_serves soc I
    { s with mem := mem₁, dev := { s.dev with spi := q, ed25519 := v } } q' hman₁ hguard hram
    hclear hserves
  refine ⟨{ s with mem := mem, dev := { s.dev with spi := q', ed25519 := v } },
    ⟨hman, hread, ?_, rfl, rfl⟩, ?_⟩
  · refine (hmem₁.mono fun x hx => .inl hx).trans (hmem.mono ?_)
    intro x hx
    exact hx.imp (hashScratch_bootArea x) id
  · rw [hrun, afterVerify]
    by_cases hhash : Fips180.sha256 I.payload = I.manifest.payloadHash
    · rw [if_pos hhash] at hload ⊢
      rw [bind_of_ok hload]
    · rw [if_neg hhash] at hload ⊢
      rw [bind_of_error hload]

end SecureBoot.Bootrom
