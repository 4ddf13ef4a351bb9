import SecureBoot.Bootrom.Mutation

/-!
# Signed again

A manifest that was patched field by field and then signed with the genuine key, as the validation
suite does it. Stages 1 and 2 cannot object, so what is left is a decision on the fields.
-/

namespace SecureBoot.Bootrom

open Words Exec Spi

/-! ## The decision -/

/-- On a manifest with the genuine key and signature. The entry point, the flags and the reserved
fields do not count. -/
def verdict (m : Tools.Fields) (kernel : List Byte) (counter : DWord) : Option Check :=
  if m.magic ≠ 0x54424F53 ∨ m.headerVersion ≠ 1 then some .header
  else if m.payloadSize = 0 ∨ m.loadAddress < 0x80000000 ∨ m.payloadSize ≠ kernel.length then
    some .payload
  else if m.version < counter.toNat then some .version
  else none

/-- The kernel was started. It is at the load address, but entered at the start of DRAM. -/
structure Runs (m : Tools.Fields) (kernel : List Byte) (s s' : Machine (Devices Host)) : Prop where
  payload : s'.mem.read m.loadAddress kernel.length = kernel
  counter : s'.dev.counter.toNat = max s.dev.counter.toNat m.version
  entry : s'.mepc = 0x80000000

inductive Decided (m : Tools.Fields) (kernel : List Byte) (s : Machine (Devices Host)) :
    Option Check → Exit → Machine (Devices Host) → Prop
  | refused (k : Check) (s' : Machine (Devices Host)) (h : Recovers k s s') :
      Decided m kernel s (some k) .recovery s'
  | started (s' : Machine (Devices Host)) (h : Runs m kernel s s') :
      Decided m kernel s none .kernel s'

/-- The fields as the tools see them and as BootROM does. -/
structure Seen (m : Tools.Fields) (M : Manifest) : Prop where
  magic : M.magic = MANIFEST_MAGIC ↔ m.magic = 0x54424F53
  headerVersion : M.headerVersion = MANIFEST_HEADER_VERSION ↔ m.headerVersion = 1
  payloadSize : M.payloadSize = m.payloadSize
  loadAddress : M.loadAddress = m.loadAddress
  payloadHash : M.payloadHash = m.payloadHash
  version : M.version.toNat = m.version

theorem seen_parsed {M : Manifest} {m : Tools.Fields}
    (hm : Tools.parseManifest M.bytes = some m) : Seen m M := by
  rw [parseManifest_bytes] at hm
  cases hm
  refine ⟨?_, ?_, rfl, rfl, rfl, ?_⟩
  · exact ⟨fun h => congrArg BitVec.toNat h, fun h => BitVec.eq_of_toNat_eq h⟩
  · exact ⟨fun h => congrArg BitVec.toNat h, fun h => BitVec.eq_of_toNat_eq h⟩
  · rw [Manifest.version, BitVec.toNat_setWidth]
    exact Nat.mod_eq_of_lt (Nat.lt_of_lt_of_le (M.word VERSION).isLt (by decide))

theorem fits_of_verdict {m : Tools.Fields} {kernel : List Byte} {counter : DWord}
    (h : verdict m kernel counter = none) :
    m.payloadSize ≠ 0 ∧ 0x80000000 ≤ m.loadAddress ∧ m.payloadSize = kernel.length := by
  unfold verdict at h
  split at h
  · cases h
  split at h
  · cases h
  rename_i hpayload
  rw [not_or, not_or, not_not, Nat.not_lt] at hpayload
  exact hpayload

/-- The checks of BootROM come to that decision, unless the flash has other bytes with the digest
of the kernel. -/
theorem firstFailing_verdict {I : Image} {m : Tools.Fields} {kernel : List Byte}
    (hseen : Seen m I.manifest) (hhash : m.payloadHash = Fips180.sha256 kernel)
    (hpayload : m.payloadSize = kernel.length → I.payload = kernel)
    (hlen : I.payload.length = m.payloadSize)
    (hcollision : ¬ (I.payload ≠ kernel ∧ Fips180.sha256 I.payload = Fips180.sha256 kernel))
    (soc : Soc Host) (hkey : I.KeyOk soc) (hsig : I.SignatureOk soc) (counter : DWord) :
    I.firstFailing soc counter = verdict m kernel counter := by
  unfold Image.firstFailing verdict
  by_cases hheader : m.magic ≠ 0x54424F53 ∨ m.headerVersion ≠ 1
  · rw [if_pos hheader, if_pos]
    intro h
    rcases hheader with hmagic | hversion
    · exact hmagic (hseen.magic.mp h.1)
    · exact hversion (hseen.headerVersion.mp h.2)
  rw [if_neg hheader]
  rw [not_or, not_not, not_not] at hheader
  have hok : I.manifest.HeaderOk :=
    ⟨hseen.magic.mpr hheader.1, hseen.headerVersion.mpr hheader.2⟩
  rw [if_neg (not_not_intro hok), if_neg (not_not_intro hkey), if_neg (not_not_intro hsig)]
  have hguard : LoadRefused I.manifest ↔ m.payloadSize = 0 ∨ m.loadAddress < 0x80000000 := by
    rw [LoadRefused, hseen.payloadSize, hseen.loadAddress]
    exact Iff.rfl
  have hdigest : Fips180.sha256 I.payload = I.manifest.payloadHash ↔
      m.payloadSize = kernel.length := by
    rw [hseen.payloadHash, hhash]
    constructor
    · intro h
      rw [← hlen, not_not.mp fun hne => hcollision ⟨hne, h⟩]
    · intro h
      rw [hpayload h]
  have hpayloadOk : I.PayloadOk ↔
      ¬ (m.payloadSize = 0 ∨ m.loadAddress < 0x80000000 ∨ m.payloadSize ≠ kernel.length) := by
    rw [Image.PayloadOk, hguard, hdigest, ← or_assoc,
      @not_or (m.payloadSize = 0 ∨ m.loadAddress < 0x80000000), not_ne_iff]
  have hversion : I.manifest.version < counter ↔ m.version < counter.toNat := by
    rw [BitVec.lt_def, hseen.version]
  simp only [hpayloadOk, not_not, hversion]

/-! ## On the chip -/

variable (nacl : Tools.NaCl) (sk : nacl.SigningKey) {a : Tools.Artifacts} {m : Tools.Fields}
  (mem : Nat → Byte)

/-- The image of signed files, as a boot finds it. -/
structure SignedImage (m : Tools.Fields) (kernel : List Byte) (I : Image) : Prop where
  seen : Seen m I.manifest
  signature : I.signature = nacl.sign sk I.manifest.bytes
  publicKey : I.publicKey = nacl.verifyKey sk
  length : I.payload.length = m.payloadSize
  payload : m.payloadSize = kernel.length → I.payload = kernel

theorem onChip_signed {a' : Tools.Artifacts} (hkey : a'.publicKey = nacl.verifyKey sk)
    (hm : Tools.parseManifest a'.manifest = some m) (hfits : 0xC0 + a'.kernel.length ≤ 2 ^ 20) :
    SignedImage nacl sk m a'.kernel (onChip (a'.signed nacl sk) mem) := by
  have hmanifest := Tools.parseManifest_length hm
  have hkeyLength : a'.publicKey.length = 32 := by rw [hkey, nacl.verifyKey_length]
  have hlayout := Tools.layout_signed nacl sk hmanifest hkeyLength
  have hsize : 0xC0 + a'.kernel.length ≤ (a'.signed nacl sk).flash.length := hlayout.size
  rcases onChip_parts mem (a'.signed nacl sk) (by omega) with ⟨h₁, h₂, h₃⟩
  have hbytes : (onChip (a'.signed nacl sk) mem).manifest.bytes = a'.manifest :=
    h₁.trans hlayout.manifest
  have hseen : Seen m (onChip (a'.signed nacl sk) mem).manifest := seen_parsed (by rwa [hbytes])
  refine ⟨hseen, ?_, (h₃.trans hlayout.publicKey).trans hkey, ?_, ?_⟩
  · rw [hbytes]
    exact h₂.trans hlayout.signature
  · rw [← hseen.payloadSize]
    exact Image.ofFlash_length _
  · intro heq
    exact (onChip_payload mem (hseen.payloadSize.trans heq) hsize hfits).trans hlayout.kernel

/-- Guarded loads below the scratch area are clear. -/
theorem clearLoad_below {I : Image} (hseen : Seen m I.manifest)
    (hbelow : m.payloadSize ≠ 0 → 0x80000000 ≤ m.loadAddress →
      m.loadAddress + m.payloadSize ≤ BOOT_SCRATCH_BASE)
    (soc : Soc Host) (hguard : ¬ LoadRefused I.manifest) : I.ClearLoad soc := by
  have hbase : BOOT_SCRATCH_BASE = 0x88000000 := rfl
  have hdram : DRAM_BASE = 0x80000000 := rfl
  rw [LoadRefused, hseen.payloadSize, hseen.loadAddress, not_or] at hguard
  have htop := hbelow hguard.1 (by omega)
  rw [Image.ClearLoad, hseen.payloadSize, hseen.loadAddress]
  refine ⟨soc.ramRange _ _ (by omega) (by omega), loadClear_below ?_⟩
  rw [hseen.loadAddress, hseen.payloadSize]
  exact htop

/-- Stages 1 and 2 pass on the chip with the key. -/
theorem signed_passes (ha : Tools.Consistent a) (hkey : a.publicKey = nacl.verifyKey sk)
    (a' : Tools.Artifacts) (hhash : a'.pubkeyHash = a.pubkeyHash) {I : Image} {kernel : List Byte}
    (hI : SignedImage nacl sk m kernel I) (soc : Soc Host) (gap : Nat → Nat) (patience : Nat) :
    I.KeyOk (installed nacl.verify soc a' mem gap patience) ∧
      I.SignatureOk (installed nacl.verify soc a' mem gap patience) := by
  constructor
  · show Fips180.sha256 I.publicKey = (Vector.ofFn fun i : Fin 32 => a'.pubkeyHash.getD i 0).toList
    rw [hI.publicKey, ← hkey, ha.pubkeyHash, hhash]
    exact (installed_otpHash nacl.verify soc mem gap patience ha).symm
  · have hverify := nacl.verify_sign sk I.manifest.bytes
    rw [← hI.publicKey, ← hI.signature] at hverify
    exact (Tools.hostScript_eq nacl.verify _ I.manifest.length_eq I.signature_length
      I.publicKey_length).trans hverify

/-- What is left of a kernel loaded below the scratch area. -/
theorem runs_of_loaded {I : Image} {kernel : List Byte} (hseen : Seen m I.manifest)
    (hpayload : I.payload = kernel) (hsize : m.payloadSize = kernel.length)
    (hbelow : m.loadAddress + m.payloadSize ≤ BOOT_SCRATCH_BASE) (soc : Soc Host)
    {s t : Machine (Devices Host)} (h : Loaded I s t) : Runs m kernel s (kernelState soc t) := by
  obtain ⟨hcounter, _⟩ := Prod.mk.inj h.kept.dev
  refine ⟨?_, ?_, rfl⟩
  · have hread := h.payload
    rw [hseen.loadAddress, hseen.payloadSize, hsize, hpayload] at hread
    refine Eq.trans ?_ hread
    apply (clearedMem_changedOnly t.mem).read_eq
    intro x h₁ h₂ hx
    have hbase : BOOT_SCRATCH_BASE = 0x88000000 := rfl
    rw [scratch_iff] at hx
    omega
  · rw [kernelState, h.manifest, hcounter, RollbackCounter.write_toNat, hseen.version]

/-- After any commands and a new signature the checker and BootROM each decide on the fields alone:
the checker on six comparisons, BootROM by its verdict; unless a payload of another size has the
digest of the kernel. -/
theorem resigned_boots (ha : Tools.Consistent a) (hkey : a.publicKey = nacl.verifyKey sk)
    (hfits : 0xC0 + a.kernel.length ≤ 2 ^ 20) (hm : Tools.parseManifest a.manifest = some m)
    {r : Tools.Repo} {commands : List Tools.Command}
    (hrun : Transition.Run Tools.Ran a.repo commands r) {m' : Tools.Fields}
    (hm' : commands.foldl Tools.Fields.after m = m')
    (hbelow : m'.payloadSize ≠ 0 → 0x80000000 ≤ m'.loadAddress →
      m'.loadAddress + m'.payloadSize ≤ BOOT_SCRATCH_BASE)
    (soc : Soc Host) (gap : Nat → Nat) (patience : Nat) (s : Machine (Devices Host))
    (hready : s.dev.spi.Ready) :
    ∃ a', Tools.signFirmware nacl sk r = .ok () a'.repo ∧
      (Tools.checkArtifacts a' = 0 ↔ Tools.IntegersOk m' a.kernel) ∧
      (m'.payloadSize ≠ a.kernel.length ∧
          Fips180.sha256 (onChip a' mem).payload = Fips180.sha256 a.kernel ∨
        ∃ e s', bootromMain (installed nacl.verify soc a' mem gap patience).platform s =
            .error e s' ∧ Decided m' a.kernel s (verdict m' a.kernel s.dev.counter) e s') := by
  subst hm'
  rcases Tools.signed_session nacl sk ha hm hrun with ⟨a', hsigned, hedited, hcheck⟩
  refine ⟨a'.signed nacl sk, hsigned, (Tools.checkArtifacts_iff _).trans hcheck, ?_⟩
  have hhash := (Tools.hashes_foldl_after m commands).1.trans (ha.fields m hm).payloadHash
  rw [← hedited.kernel] at hfits hhash ⊢
  have hI := onChip_signed nacl sk mem (hedited.publicKey.trans hkey) hedited.fields hfits
  generalize commands.foldl Tools.Fields.after m = m' at *
  by_cases hcollision : (onChip (a'.signed nacl sk) mem).payload ≠ a'.kernel ∧
      Fips180.sha256 (onChip (a'.signed nacl sk) mem).payload = Fips180.sha256 a'.kernel
  · exact .inl ⟨fun hsize => hcollision.1 (hI.payload hsize), hcollision.2⟩
  right
  rcases signed_passes nacl sk mem ha hkey (a'.signed nacl sk) hedited.pubkeyHash hI soc gap
    patience with ⟨hkeyOk, hsigOk⟩
  have hends := bootromMain_policyEnd
    (installed nacl.verify soc (a'.signed nacl sk) mem gap patience)
    (onChip (a'.signed nacl sk) mem) s (onChip_servedBy nacl.verify _ mem soc gap patience _ hready)
    fun _ hguard => clearLoad_below hI.seen hbelow _ hguard
  rw [firstFailing_verdict hI.seen hhash hI.payload hI.length hcollision _ hkeyOk hsigOk] at hends
  rcases hends with ⟨e, s', hboot, hends⟩
  refine ⟨e, s', hboot, ?_⟩
  generalize hverdict : verdict m' a'.kernel s.dev.counter = v at hends ⊢
  cases hends with
  | refused k _ h => exact .refused k _ h
  | started t h =>
      rcases fits_of_verdict hverdict with ⟨hnonzero, hload, hsize⟩
      exact .started _ (runs_of_loaded hI.seen (hI.payload hsize) hsize (hbelow hnonzero hload) _ h)

/-- The fields of the one-instruction kernel, to be loaded elsewhere. -/
def movedFields : Tools.Fields :=
  { selfLoop.manifest.fields.parsed with loadAddress := 0x80001000 }

theorem movedFields_size : movedFields.payloadSize = selfLoop.files.kernel.length := selfLoop_size

/-- All but the load address is as it was. -/
theorem movedFields_ok : Tools.IntegersOk movedFields selfLoop.files.kernel := by
  have hfields := ((Tools.checkArtifacts_iff _).mp selfLoop_files).fields _
    (parseManifest_bytes selfLoop.manifest)
  exact ⟨hfields.magic, hfields.headerVersion, hfields.version, hfields.payloadSize, by decide,
    hfields.entryPoint⟩

theorem movedFields_verdict : verdict movedFields selfLoop.files.kernel 0 = none := by
  rw [verdict, movedFields_ok.magic, movedFields_ok.headerVersion, movedFields_size]
  rfl

/-- The one-instruction kernel, loaded elsewhere and signed again. -/
theorem selfLoop_resigned :
    ∃ r a' s', Transition.Run Tools.Ran selfLoop.files.repo
        [.patchManifestField "load_address" 0x80001000] r ∧
      Tools.signFirmware developmentKey () r = .ok () a'.repo ∧
      Tools.checkArtifacts a' = 0 ∧
      bootromMain
          (installed developmentKey.verify blankSoc a' (fun _ => 0xFF) (fun _ => 3) 0).platform
          blankReset = .error .kernel s' ∧
      Runs movedFields [0x6F, 0, 0, 0] blankReset s' := by
  have ha := (Tools.checkArtifacts_iff _).mp selfLoop_files
  have hm := parseManifest_bytes selfLoop.manifest
  obtain ⟨r, hran⟩ := Tools.ran_exists selfLoop.files.repo
    (.patchManifestField "load_address" 0x80001000)
  have hafter : [Tools.Command.patchManifestField "load_address" 0x80001000].foldl
      Tools.Fields.after selfLoop.manifest.fields.parsed = movedFields := rfl
  have hbelow : movedFields.loadAddress + movedFields.payloadSize ≤ BOOT_SCRATCH_BASE := by
    rw [movedFields_size]
    decide
  obtain ⟨a', hsigned, hcheck, hcollision | hends⟩ := resigned_boots developmentKey ()
    (fun _ => 0xFF) ha rfl (by decide) hm (.one hran) hafter (fun _ _ => hbelow) blankSoc
    (fun _ => 3) 0 blankReset Host.ready_reset
  · exact absurd movedFields_size hcollision.1
  · obtain ⟨e, s', hrun, hdecided⟩ := hends
    rw [show blankReset.dev.counter = 0 from rfl, movedFields_verdict] at hdecided
    cases hdecided with
    | started _ hruns =>
        exact ⟨r, a', s', .one hran, hsigned, hcheck.mpr movedFields_ok, hrun, hruns⟩

end SecureBoot.Bootrom
