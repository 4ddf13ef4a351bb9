import SecureBoot.Bootrom.Authentic

/-!
# What verification leaves behind

The scratch buffers are cleared before the jump, the `sha256_ctx` object of the
payload hash is not. Two boots are compared through what it still shows.
-/

namespace SecureBoot.Bootrom

open Words Exec

/-! ## Two hash objects -/

/-- The memory that BootROM verified with: its buffers and the object of `sha256_hash`. -/
def Verification (x : Nat) : Prop := Scratch x ∨ Within CTX_BASE 112 x

def SameResidue {δ δ' : Type} (s : Machine δ) (s' : Machine δ') : Prop :=
  ∀ x, Verification x → s.mem x = s'.mem x

theorem ctxImage_parts {ctx ctx' : Sha256.Sha256Ctx} (h : ctxImage ctx = ctxImage ctx') :
    ctx.state = ctx'.state ∧ ctx.buffer = ctx'.buffer := by
  unfold ctxImage at h
  obtain ⟨hfront, _⟩ := List.append_inj' h (by simp)
  obtain ⟨hhead, hbuffer⟩ := List.append_inj' hfront (by simp)
  obtain ⟨hstate, _⟩ := List.append_inj' hhead (by simp)
  have hwords := flatMap_injective leBytes_length leBytes_injective hstate
  exact ⟨Vector.toList_inj.mp hwords, Vector.toList_inj.mp hbuffer⟩

theorem storeBe32_injective : Function.Injective Sha256.storeBe32 := by
  intro x y h
  have hreverse : (leBytes x).reverse = (leBytes y).reverse := h
  exact leBytes_injective (List.reverse_inj.mp hreverse)

theorem storeBe32_length (x : Word) : (Sha256.storeBe32 x).length = 4 := rfl

/-- Two hash objects over messages of one length differ unless digest and last block agree. -/
theorem hashLeft_eq_iff {mem mem' : Memory} {msg msg' : List Byte} (h : HashLeft mem msg)
    (h' : HashLeft mem' msg') (hlen : msg.length = msg'.length) :
    mem.read CTX_BASE 112 = mem'.read CTX_BASE 112 ↔
      Fips180.sha256 msg = Fips180.sha256 msg' ∧
        Fips180.lastBlock msg = Fips180.lastBlock msg' := by
  obtain ⟨ctx, hspent, hread⟩ := h
  obtain ⟨ctx', hspent', hread'⟩ := h'
  rw [hread, hread']
  constructor
  · intro heq
    obtain ⟨hstate, hbuffer⟩ := ctxImage_parts heq
    rw [← hspent.state, ← hspent'.state, ← hspent.buffer, ← hspent'.buffer, hstate, hbuffer]
    exact ⟨rfl, rfl⟩
  · intro heq
    obtain ⟨hdigest, hlast⟩ := heq
    rw [← hspent.state, ← hspent'.state] at hdigest
    rw [← hspent.buffer, ← hspent'.buffer] at hlast
    have hwords := flatMap_injective storeBe32_length storeBe32_injective hdigest
    simp only [ctxImage, hwords, hlast, hspent.bitLen, hspent'.bitLen, hspent.bufferLen,
      hspent'.bufferLen, hlen]

/-! ## One boot -/

variable {σ : Type} (soc : Soc σ)

/-- The manifest a run accepts and the payload the flash delivers for it. -/
def Delivered (s : Machine (Devices σ)) (M : Manifest) (payload : List Byte) : Prop :=
  ∃ accepted filled, untilStage3 soc.platform s = .ok () accepted ∧
    Manifest.ofMem accepted.mem = M ∧
    readFlash soc.platform KERNEL_OFFSET (M.word PAYLOAD_SIZE) M.loadAddress accepted =
      .ok () filled ∧
    filled.mem.read M.loadAddress M.payloadSize = payload

/-- The range is DRAM outside BootROM's area. -/
def LoadApart (M : Manifest) : Prop := ∀ x, LoadRange M x → inDram x = true ∧ ¬ BootArea x

theorem LoadApart.safe {M : Manifest} (h : LoadApart M) : LoadSafe M := by
  intro x hx
  obtain ⟨hdram, hout⟩ := h x hx
  unfold BootArea at hout
  rw [scratch_iff, inFrame_iff]
  exact ⟨hdram, by omega, by omega⟩

/-- The scratch buffers are zero, the hash object of the payload is not touched again. -/
structure Left (M : Manifest) (payload : List Byte) (s' : Machine (Devices σ)) : Prop where
  length : payload.length = M.payloadSize
  hash : Fips180.sha256 payload = M.payloadHash
  scratch : ∀ x, Scratch x → s'.mem x = 0
  object : HashLeft s'.mem payload

theorem HashLeft.cleared {mem : Memory} {msg : List Byte} (h : HashLeft mem msg) :
    HashLeft (clearedMem mem) msg := by
  obtain ⟨ctx, hspent, hread⟩ := h
  refine ⟨ctx, hspent, ?_⟩
  rw [← hread]
  apply (clearedMem_changedOnly mem).read_eq
  intro x h₁ h₂ hx
  have haddr := addresses
  rw [scratch_iff] at hx
  omega

/-- What the kernel of a boot finds. -/
theorem left_of_kernel {s s' : Machine (Devices σ)} {M : Manifest} {payload : List Byte}
    (h : bootromMain soc.platform s = .error .kernel s') (hd : Delivered soc s M payload)
    (hapart : LoadApart M) : Left M payload s' := by
  obtain ⟨accepted, filled, hstages, hM, hread, hpayload⟩ := hd
  obtain ⟨t, filled', loaded, hrun, _, _, _, read, verify, _, rfl⟩ := bootromMain_kernel soc h
  rw [hstages] at hrun
  cases hrun
  rw [hM] at read verify
  rw [hread] at read
  cases read
  have hsafe := hapart.safe
  have hfilled := ((payloadRead_wp soc M accepted).ok hread).2
  have hman := hsafe.manifest_kept hM hfilled.mem
  obtain ⟨hhash, _, _⟩ := hsafe.handover soc hman verify
  obtain ⟨mem, hleft, _, heq⟩ := verifyPayload_left soc M.loadAddress filled
    (by rw [hman]; exact hsafe.ramRange soc)
  have hmsg := (hsafe.messageAt soc filled).trans hpayload
  rw [hpayload] at hhash
  rw [hman, hmsg, if_pos hhash, verify] at heq
  rw [hman, hmsg] at hleft
  cases heq
  exact
    { length := by rw [← hpayload, Memory.read_length]
      hash := hhash
      scratch := fun x hx => clearedMem_scratch mem x hx
      object := hleft.cleared }

/-- A boot into a kernel has accepted a manifest and received a payload. -/
theorem delivered_of_kernel {s s' : Machine (Devices σ)}
    (h : bootromMain soc.platform s = .error .kernel s') :
    ∃ M payload, Delivered soc s M payload := by
  obtain ⟨t, filled, _, hkernel⟩ := bootromMain_kernel soc h
  exact ⟨Manifest.ofMem t.mem, _, t, filled, hkernel.stages, rfl, hkernel.read, rfl⟩

/-! ## Two boots -/

/-- The bytes of a payload behind its whole 64-byte blocks. -/
def lastBytes (payload : List Byte) : List Byte := payload.drop (64 * (payload.length / 64))

theorem memory_eq_iff_read {mem mem' : Memory} {a n : Nat} :
    (∀ x, Within a n x → mem x = mem' x) ↔ mem.read a n = mem'.read a n := by
  constructor
  · intro h
    exact Memory.read_congr fun i hi => h (a + i) ⟨by omega, by omega⟩
  · intro h x hx
    have hget := congrArg (fun l => l.getD (x - a) 0) h
    have hlt : x - a < n := Nat.sub_lt_left_of_lt_add hx.1 hx.2
    simp only [Memory.read_getD _ _ _ _ hlt, Nat.add_sub_cancel' hx.1] at hget
    exact hget

/-- Payload hashes and last blocks are all that shows. -/
theorem Left.residue_iff {σ₁ σ₂ : Type} {M₁ M₂ : Manifest} {payload₁ payload₂ : List Byte}
    {s₁ : Machine (Devices σ₁)} {s₂ : Machine (Devices σ₂)} (h₁ : Left M₁ payload₁ s₁)
    (h₂ : Left M₂ payload₂ s₂) (hsize : M₁.payloadSize = M₂.payloadSize) :
    SameResidue s₁ s₂ ↔ M₁.payloadHash = M₂.payloadHash ∧
      (M₁.payloadSize % 64 < 56 → lastBytes payload₁ = lastBytes payload₂) := by
  have hlen : payload₁.length = payload₂.length := by
    rw [h₁.length, h₂.length, hsize]
  have hlast := Fips180.lastBlock_eq_iff hlen
  rw [lastBytes, lastBytes, ← hlen, ← h₁.hash, ← h₂.hash, ← h₁.length, ← hlast,
    ← hashLeft_eq_iff h₁.object h₂.object hlen, ← memory_eq_iff_read]
  constructor
  · intro h x hx
    exact h x (.inr hx)
  · intro h x hx
    rcases hx with hx | hx
    · rw [h₁.scratch x hx, h₂.scratch x hx]
    · exact h x hx

/-- Two boots leave the same verification memory exactly when their manifests carry the same
payload hash and, unless the padding fills the last block, their payloads end in the same bytes. -/
theorem sameResidue_iff {σ₁ σ₂ : Type} (soc₁ : Soc σ₁) (soc₂ : Soc σ₂)
    (s₁ s₁' : Machine (Devices σ₁)) (s₂ s₂' : Machine (Devices σ₂)) (M₁ M₂ : Manifest)
    (payload₁ payload₂ : List Byte) (h₁ : bootromMain soc₁.platform s₁ = .error .kernel s₁')
    (h₂ : bootromMain soc₂.platform s₂ = .error .kernel s₂') (hd₁ : Delivered soc₁ s₁ M₁ payload₁)
    (hd₂ : Delivered soc₂ s₂ M₂ payload₂) (hapart₁ : LoadApart M₁) (hapart₂ : LoadApart M₂)
    (hsize : M₁.payloadSize = M₂.payloadSize) :
    SameResidue s₁' s₂' ↔ M₁.payloadHash = M₂.payloadHash ∧
      (M₁.payloadSize % 64 < 56 → lastBytes payload₁ = lastBytes payload₂) :=
  (left_of_kernel soc₁ h₁ hd₁ hapart₁).residue_iff (left_of_kernel soc₂ h₂ hd₂ hapart₂) hsize

/-! ## Two images for one chip -/

theorem loadApart_of_small {M : Manifest} (hload : M.loadAddress = 0x80000000)
    (hsize : M.payloadSize ≤ 0x8000000) : LoadApart M := by
  intro x hx
  obtain ⟨h₁, h₂⟩ := hx
  unfold BootArea
  rw [Soc.inDram_iff]
  omega

/-- With an image in the flash it is the image that is delivered. -/
theorem Image.delivered (I : Image) (soc : Soc IdealFlash)
    (hport : soc.port = IdealFlash.port I.flash)
    (hlen : I.payload.length = I.manifest.payloadSize)
    (hram : soc.platform.RamRange I.manifest.loadAddress I.manifest.payloadSize)
    {s : Machine (Devices IdealFlash)} {M : Manifest} {payload : List Byte}
    (h : Delivered soc s M payload) : M = I.manifest ∧ payload = I.payload := by
  obtain ⟨accepted, filled, hstages, hM, hread, hpayload⟩ := h
  have hman : M = I.manifest := by
    rw [← hM]
    exact (I.flash_serves soc hport hlen s.dev.spi).accepted hstages
  subst hman
  obtain ⟨q, hserves⟩ := IdealFlash.serves I.flash MAX_SPIN KERNEL_OFFSET
    (I.manifest.word PAYLOAD_SIZE) accepted.dev.spi
  rw [show KERNEL_OFFSET.toNat = 0xC0 from rfl, ← Manifest.payloadSize, I.flash_payload _ hlen,
    ← hport] at hserves
  rw [readFlash_port soc _ _ _ accepted _ _ hram hserves] at hread
  cases hread
  refine ⟨rfl, ?_⟩
  rw [← hpayload]
  exact Memory.read_write_same_of_length _ _ _ _ hlen

/-- Another kernel of one instruction under the same key. -/
def fallThrough : Image :=
  .firmware 1 0x80000000 0x80000000 [0x13, 0, 0, 0] [0x13, 0, 0, 0]
    (ofHex 32 0x6e8bf15010a98678542c3338373e1cf0b9e7eba678fd72337e20a00582e9a09a ++
      ofHex 32 0x9ac4571e0d2fe0f81ac27851b6a815272c6864a98c452ea2c241a00674467d0d) (by decide)

/-- One chip whose verifier knows both signatures, with one of the images in its flash. -/
def flashed (I : Image) : Soc IdealFlash :=
  { selfLoop.chip with
    port := IdealFlash.port I.flash
    script := fun files => selfLoop.chip.script files || fallThrough.chip.script files }

/-- A boot of one of the two images. -/
theorem flashed_left (I : Image) (hI : I = selfLoop ∨ I = fallThrough) (mem : Memory) :
    ∃ s', bootromMain (flashed I).platform (Image.atReset mem 0) = .error .kernel s' ∧
      Delivered (flashed I) (Image.atReset mem 0) I.manifest I.payload ∧
      LoadApart I.manifest := by
  have hload : I.manifest.loadAddress = 0x80000000 := by
    rcases hI with rfl | rfl <;> simp [selfLoop, fallThrough]
  have hsize : I.manifest.payloadSize = 4 := by
    rcases hI with rfl | rfl <;> simp [selfLoop, fallThrough]
  have hlen : I.payload.length = 4 := by
    rcases hI with rfl | rfl <;> rfl
  have hhash : Fips180.sha256 I.payload = I.manifest.payloadHash := by
    rcases hI with rfl | rfl <;> (simp [selfLoop, fallThrough]; rfl)
  have hversion : I.manifest.version = 1 := by
    rcases hI with rfl | rfl <;> simp [selfLoop, fallThrough]
  have hheader : I.manifest.HeaderOk := by
    rcases hI with rfl | rfl <;> exact Manifest.pack_headerOk _ _ _ _ _ (Fips180.sha256_length _)
  have hverified : I.Verified (flashed I) := by
    refine ⟨hheader, ?_, ?_⟩
    · rcases hI with rfl | rfl
      · simp [Image.KeyOk, flashed, Image.chip]
      · simp [Image.KeyOk, flashed, Image.chip, selfLoop, fallThrough, Image.firmware]
    · rcases hI with rfl | rfl <;> simp [Image.SignatureOk, flashed, Image.chip]
  have hplaced : I.Placed :=
    Image.placed_below (by rw [hlen, hsize]) (by omega) (by omega) (by rw [hload, hsize]; decide)
  obtain ⟨t, hrun⟩ := hplaced.flash_boots (flashed I) rfl hverified mem 0 hhash
    (by rw [hversion]; decide)
  obtain ⟨M, payload, hd⟩ := delivered_of_kernel (flashed I) hrun
  obtain ⟨hM, hpayload⟩ := I.delivered (flashed I) rfl (by rw [hlen, hsize])
    ((flashed I).ramRange _ _ (by omega) (by omega)) hd
  subst hM hpayload
  exact ⟨_, hrun, hd, loadApart_of_small hload (by omega)⟩

theorem selfLoop_sameResidue :
    ∃ s₁' s₂', bootromMain (flashed selfLoop).platform (Image.atReset (fun _ => 0) 0) =
        .error .kernel s₁' ∧
      bootromMain (flashed selfLoop).platform (Image.atReset (fun _ => 0xAA) 0) =
        .error .kernel s₂' ∧ SameResidue s₁' s₂' := by
  obtain ⟨s₁', hrun₁, hd₁, hapart₁⟩ := flashed_left selfLoop (.inl rfl) fun _ => 0
  obtain ⟨s₂', hrun₂, hd₂, hapart₂⟩ := flashed_left selfLoop (.inl rfl) fun _ => 0xAA
  exact ⟨s₁', s₂', hrun₁, hrun₂, (sameResidue_iff _ _ _ _ _ _ _ _ _ _ hrun₁ hrun₂ hd₁ hd₂ hapart₁
    hapart₂ rfl).mpr ⟨rfl, fun _ => rfl⟩⟩

/-- The two kernels differ in one byte; the kernel that runs can tell which one was verified. -/
theorem fallThrough_residue_differs :
    ∃ s₁' s₂', bootromMain (flashed selfLoop).platform (Image.atReset (fun _ => 0) 0) =
        .error .kernel s₁' ∧
      bootromMain (flashed fallThrough).platform (Image.atReset (fun _ => 0) 0) =
        .error .kernel s₂' ∧
      LoadApart selfLoop.manifest ∧ LoadApart fallThrough.manifest ∧
      selfLoop.manifest.payloadSize = fallThrough.manifest.payloadSize ∧
      ¬ SameResidue s₁' s₂' := by
  obtain ⟨s₁', hrun₁, hd₁, hapart₁⟩ := flashed_left selfLoop (.inl rfl) fun _ => 0
  obtain ⟨s₂', hrun₂, hd₂, hapart₂⟩ := flashed_left fallThrough (.inr rfl) fun _ => 0
  have hsize₁ : selfLoop.manifest.payloadSize = 4 := selfLoop_size
  have hsize₂ : fallThrough.manifest.payloadSize = 4 := by simp [fallThrough]
  refine ⟨s₁', s₂', hrun₁, hrun₂, hapart₁, hapart₂, hsize₁.trans hsize₂.symm, ?_⟩
  intro hsame
  have hleft₁ := left_of_kernel _ hrun₁ hd₁ hapart₁
  have hleft₂ := left_of_kernel _ hrun₂ hd₂ hapart₂
  have hbytes := ((hleft₁.residue_iff hleft₂ (hsize₁.trans hsize₂.symm)).mp hsame).2
    (by rw [hsize₁]; omega)
  exact absurd hbytes (by decide)

end SecureBoot.Bootrom
