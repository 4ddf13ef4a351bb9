import SecureBoot.Bootrom.Toolchain
import SecureBoot.Tools.Artifacts

/-!
# The artifact checker against BootROM

What `check_artifacts` accepts, on a chip with the flash image and the key hash
of the same repository.
-/

namespace SecureBoot.Bootrom

open Words Exec Spi

/-! ## Two decoders of the manifest -/

/-- The fields as Python integers. -/
def ManifestT.parsed (f : ManifestT) : Tools.Fields where
  magic := f.magic.toNat
  headerVersion := f.headerVersion.toNat
  flags := f.flags.toNat
  version := f.version.toNat
  payloadSize := f.payloadSize.toNat
  loadAddress := f.loadAddress.toNat
  entryPoint := f.entryPoint.toNat
  reserved := f.reserved.toNat
  pad := f.pad.toNat
  payloadHash := f.payloadHash
  nextPubkeyHash := f.nextPubkeyHash

/-- `struct.unpack` finds the fields where the packed structure has them. -/
theorem parseManifest_bytes (M : Manifest) :
    Tools.parseManifest M.bytes = some M.fields.parsed := by
  have hlen := M.length_eq
  have hget : ∀ n i, (M.bytes.drop n).getD i 0 = M.bytes.getD (n + i) 0 := by
    intro n i
    rw [List.getD_eq_getElem?_getD, List.getElem?_drop, ← List.getD_eq_getElem?_getD]
  have hend : M.bytes.drop 96 = [] := List.drop_eq_nil_of_le (by omega)
  have hsize : ¬ M.bytes.length ≠ Tools.MANIFEST_SIZE := not_not_intro hlen
  rw [Tools.parseManifest, if_neg hsize]
  simp only [Tools.MANIFEST_STRUCT, Tools.unpack, Tools.Code.size, List.length_drop, hlen,
    List.drop_drop, Nat.reduceAdd, hend, Nat.reduceSub, Nat.reduceLT, if_false, Tools.unpackItem,
    hget, Option.pure_def, Option.bind_eq_bind, Option.bind_some]
  rfl

/-! ## The repository on a chip -/

variable (verify : Tools.Verify) (soc : Soc Host) (a : Tools.Artifacts) (mem : Nat → Byte)
  (gap : Nat → Nat) (patience : Nat)

/-- The SoC with the flash image and the key hash of the repository. -/
def installed : Soc Host :=
  { soc.onHost verify with
    port := Host.port (hexStorage (Tools.flashImageHex a.flash) mem) gap patience
    otpHash := Vector.ofFn fun i => a.pubkeyHash.getD i 0 }

/-- What the flash delivers as the kernel; behind its last byte it starts again. -/
def flashReads : List Byte :=
  (List.range a.kernel.length).map fun i => a.flash.getD ((0xC0 + i) % 2 ^ 20) 0

theorem flashReads_length : (flashReads a).length = a.kernel.length := by simp [flashReads]

variable {a}

/-- What one boot reads of it. -/
def readImage (h : Tools.Consistent a) : Image where
  manifest := ⟨a.manifest, h.manifestSize⟩
  signature := a.signature
  publicKey := a.publicKey
  payload := flashReads a
  signature_length := h.signatureSize
  publicKey_length := h.publicKeySize

theorem flash_take (h : Tools.Consistent a) :
    a.flash.take 0xC0 = a.manifest ++ a.signature ++ a.publicKey := by
  have hmanifest := h.flashManifest
  have hsignature := h.flashSignature
  have hkey := h.flashPublicKey
  rw [Tools.slice] at hmanifest hsignature hkey
  rw [List.drop_zero] at hmanifest
  rw [show 0xC0 = 0x60 + 64 + 32 from rfl, List.take_add, List.take_add, hmanifest, hsignature,
    hkey]

/-- The flash behind the SPI block holds the image. -/
theorem hexStorage_readImage (h : Tools.Consistent a) (x : Nat) (hx : x < 0xC0 + a.kernel.length) :
    (hexStorage (Tools.flashImageHex a.flash) mem).memory x = (readImage h).flash x := by
  have hparts : (a.manifest ++ a.signature ++ a.publicKey).length = 0xC0 := by
    simp only [List.length_append, h.manifestSize, h.signatureSize, h.publicKeySize]
  have hsize := h.flashSize
  have hall := (readImage h).image_length
  rw [show (readImage h).payload.length = a.kernel.length from flashReads_length a] at hall
  rw [hexStorage_byte _ _ _ (by omega), Image.flash,
    Memory.write_apply_of_inside _ _ _ _ (Nat.zero_le x) (by omega), Nat.sub_zero]
  show _ = ((a.manifest ++ a.signature ++ a.publicKey) ++ flashReads a).getD x 0
  rw [List.getD_eq_getElem?_getD, List.getD_eq_getElem?_getD]
  by_cases hlow : x < 0xC0
  · rw [List.getElem?_append_left (by omega), ← flash_take h, Nat.mod_eq_of_lt (by omega),
      List.getElem?_take_of_lt hlow]
  · rw [List.getElem?_append_right (by omega), hparts, flashReads, List.getElem?_map,
      List.getElem?_range (by omega), Option.map_some, Option.getD_some,
      List.getD_eq_getElem?_getD, show 0xC0 + (x - 0xC0) = x by omega]

/-- Both decoders agree, so the checks of the script are checks on `manifest_t`. -/
theorem readImage_fields (h : Tools.Consistent a) :
    Tools.FieldsOk (readImage h).manifest.fields.parsed a.kernel :=
  h.fields _ (parseManifest_bytes (readImage h).manifest)

theorem readImage_payloadSize (h : Tools.Consistent a) :
    (readImage h).manifest.payloadSize = a.kernel.length := (readImage_fields h).payloadSize

theorem installed_otpHash (h : Tools.Consistent a) :
    (installed verify soc a mem gap patience).otpHash.toList = a.pubkeyHash := by
  have hsize := h.pubkeyHashSize
  show (Vector.ofFn fun i : Fin 32 => a.pubkeyHash.getD i 0).toList = a.pubkeyHash
  generalize a.pubkeyHash = hash at hsize
  apply List.ext_getElem
  · rw [Vector.length_toList, hsize]
  · intro i hi hi'
    rw [Vector.getElem_toList, Vector.getElem_ofFn, List.getD_eq_getElem?_getD,
      List.getElem?_eq_getElem hi', Option.getD_some]

/-- Stages 0 to 2 accept it. -/
theorem readImage_verified (h : Tools.Consistent a)
    (hverify : verify a.publicKey a.manifest a.signature = true) :
    (readImage h).Verified (installed verify soc a mem gap patience) := by
  have hfields := readImage_fields h
  have hfiles := Tools.hostScript_eq verify ⟨a.manifest, a.signature, a.publicKey⟩ h.manifestSize
    h.signatureSize h.publicKeySize
  constructor
  · exact ⟨BitVec.eq_of_toNat_eq hfields.magic, BitVec.eq_of_toNat_eq hfields.headerVersion⟩
  · constructor
    · rw [Image.KeyOk, installed_otpHash verify soc mem gap patience h]
      exact h.pubkeyHash
    · exact hfiles.trans hverify

theorem readImage_servedBy (h : Tools.Consistent a) (q : Host) (hq : q.Ready) :
    (readImage h).ServedBy (installed verify soc a mem gap patience) q := by
  have hsize := readImage_payloadSize h
  apply (readImage h).servedBy_host _ (hexStorage (Tools.flashImageHex a.flash) mem) gap patience
    rfl ((flashReads_length a).trans hsize.symm) _ q hq
  intro x hx
  exact hexStorage_readImage mem h x (by omega)

/-! ## What decides -/

variable (a)

/-- The manifest that the load of the kernel leaves in the manifest buffer. -/
def reloaded (m : Tools.Fields) : Manifest :=
  .ofMem ((Memory.write (fun _ => 0) MANIFEST_BUFFER a.manifest).write m.loadAddress
    (flashReads a))

/-- There is a kernel, the flash holds it, it is loaded into DRAM and off the stack, and what it
leaves of the manifest are the size, the hash and a version that the counter allows. -/
structure Bootable (m : Tools.Fields) (counter : DWord) : Prop where
  nonempty : a.kernel ≠ []
  flash : flashReads a = a.kernel
  dram : ∀ x, Within m.loadAddress a.kernel.length x → inDram x = true
  stack : ∀ x, Within m.loadAddress a.kernel.length x → ¬ inFrame x = true
  size : (reloaded a m).payloadSize = m.payloadSize
  hash : (reloaded a m).payloadHash = m.payloadHash
  version : counter ≤ (reloaded a m).version

/-- What the source leaves open: kernel bytes in a peripheral window or on the stack of the compiled
hash, a kernel that changes the size in the manifest buffer, the expected digest for other bytes. -/
inductive Unsettled (m : Tools.Fields) : Prop
  | window (x : Nat) (hx : Within m.loadAddress a.kernel.length x) (h : inWindows x = true)
  | stack (x : Nat) (hx : Within m.loadAddress a.kernel.length x) (h : inFrame x = true)
  | size (h : (reloaded a m).payloadSize ≠ m.payloadSize)
  | hash (h : ¬ (flashReads a = a.kernel ∧ (reloaded a m).payloadHash = m.payloadHash))
      (heq : Fips180.sha256 (flashReads a) = (reloaded a m).payloadHash)

/-- `bootrom_main` on the chip reaches the `mret` into the kernel. -/
def EntersKernel (s : Machine (Devices Host)) : Prop :=
  ∃ s', bootromMain (installed verify soc a mem gap patience).platform s = .error .kernel s'

variable {a}

theorem readImage_loadRefused (h : Tools.Consistent a) :
    LoadRefused (readImage h).manifest ↔ a.kernel = [] := by
  have hsize := readImage_payloadSize h
  have hload : DRAM_BASE ≤ (readImage h).manifest.loadAddress := (readImage_fields h).loadAddress
  rw [LoadRefused, hsize, List.length_eq_zero_iff]
  exact ⟨fun hr => hr.resolve_right (Nat.not_lt.mpr hload), .inl⟩

/-- A run that enters the kernel passed the guards of Stage 3 and wrote to addresses that answer. -/
theorem guards_of_entersKernel (h : Tools.Consistent a) {s : Machine (Devices Host)}
    (hready : s.dev.spi.Ready) (henters : EntersKernel verify soc a mem gap patience s) :
    a.kernel ≠ [] ∧ ∀ x, Within (readImage h).manifest.loadAddress a.kernel.length x →
      inDram x = true ∨ inWindows x = true := by
  rcases henters with ⟨s', hkernel⟩
  obtain ⟨accepted, filled, loaded, hrun⟩ := bootromMain_kernel _ hkernel
  have hserved := readImage_servedBy verify soc mem gap patience h s.dev.spi hready
  have hman := hserved.accepted hrun.stages
  have hguards := hrun.guards
  have hmapped := hrun.mapped
  rw [hman, readImage_loadRefused h] at hguards
  rw [hman, readImage_payloadSize h] at hmapped
  exact ⟨hguards, fun x hx => (Bool.or_eq_true _ _).mp (hmapped x hx)⟩

section Signed

variable (h : Tools.Consistent a) (hverify : verify a.publicKey a.manifest a.signature = true)
  {s : Machine (Devices Host)} (hready : s.dev.spi.Ready)
include hverify hready

/-- In DRAM and off the stack two values decide. -/
theorem entersKernel_iff (hnonempty : a.kernel ≠ [])
    (hdram : ∀ x, Within (readImage h).manifest.loadAddress a.kernel.length x → inDram x = true)
    (hstack : ∀ x, Within (readImage h).manifest.loadAddress a.kernel.length x →
      ¬ inFrame x = true)
    (hsize : (readImage h).reloaded.payloadSize = (readImage h).manifest.payloadSize) :
    EntersKernel verify soc a mem gap patience s ↔
      Fips180.sha256 (flashReads a) = (readImage h).reloaded.payloadHash ∧
        s.dev.counter ≤ (readImage h).reloaded.version := by
  have hserved := readImage_servedBy verify soc mem gap patience h s.dev.spi hready
  have hverified := readImage_verified verify soc mem gap patience h hverify
  have hguard : ¬ LoadRefused (readImage h).manifest :=
    fun hr => hnonempty ((readImage_loadRefused h).mp hr)
  rw [← readImage_payloadSize h] at hdram hstack
  exact bootromMain_kernel_iff _ (readImage h) s hserved hverified hguard
    (fun x h₁ h₂ => hdram x ⟨h₁, h₂⟩) hstack hsize

theorem entersKernel_of_bootable
    (hboot : Bootable a (readImage h).manifest.fields.parsed s.dev.counter) :
    EntersKernel verify soc a mem gap patience s := by
  have hhash : Fips180.sha256 (flashReads a) = (readImage h).reloaded.payloadHash := by
    rw [hboot.flash, ← (readImage_fields h).payloadHash]
    exact hboot.hash.symm
  exact (entersKernel_iff verify soc mem gap patience h hverify hready hboot.nonempty hboot.dram
    hboot.stack hboot.size).mpr ⟨hhash, hboot.version⟩

theorem bootable_of_entersKernel (henters : EntersKernel verify soc a mem gap patience s) :
    Bootable a (readImage h).manifest.fields.parsed s.dev.counter ∨
      Unsettled a (readImage h).manifest.fields.parsed := by
  obtain ⟨hnonempty, hmapped⟩ :=
    guards_of_entersKernel verify soc mem gap patience h hready henters
  by_cases hwindow : ∃ x, Within (readImage h).manifest.loadAddress a.kernel.length x ∧
      inWindows x = true
  · rcases hwindow with ⟨x, hx, hin⟩
    exact .inr (.window x hx hin)
  by_cases hframe : ∃ x, Within (readImage h).manifest.loadAddress a.kernel.length x ∧
      inFrame x = true
  · rcases hframe with ⟨x, hx, hin⟩
    exact .inr (.stack x hx hin)
  by_cases hsize : (readImage h).reloaded.payloadSize = (readImage h).manifest.payloadSize
  case neg => exact .inr (.size hsize)
  have hdram : ∀ x, Within (readImage h).manifest.loadAddress a.kernel.length x →
      inDram x = true := by
    intro x hx
    exact (hmapped x hx).resolve_right fun hin => hwindow ⟨x, hx, hin⟩
  have hstack : ∀ x, Within (readImage h).manifest.loadAddress a.kernel.length x →
      ¬ inFrame x = true := by
    intro x hx hin
    exact hframe ⟨x, hx, hin⟩
  obtain ⟨hhash, hversion⟩ := (entersKernel_iff verify soc mem gap patience h hverify hready
    hnonempty hdram hstack hsize).mp henters
  by_cases hsame : flashReads a = a.kernel ∧
      (readImage h).reloaded.payloadHash = (readImage h).manifest.payloadHash
  · exact .inl ⟨hnonempty, hsame.1, hdram, hstack, hsize, hsame.2, hversion⟩
  · exact .inr (.hash hsame hhash)

end Signed

/-- Of the files that the checker accepts and that are signed, the bootable ones enter the kernel,
and no others as far as the source decides. -/
theorem checkArtifacts_boots (hcheck : Tools.checkArtifacts a = 0)
    (hverify : verify a.publicKey a.manifest a.signature = true) (m : Tools.Fields)
    (hm : Tools.parseManifest a.manifest = some m) (s : Machine (Devices Host))
    (hready : s.dev.spi.Ready) :
    (Bootable a m s.dev.counter → EntersKernel verify soc a mem gap patience s) ∧
      (EntersKernel verify soc a mem gap patience s →
        Bootable a m s.dev.counter ∨ Unsettled a m) := by
  have h := (Tools.checkArtifacts_iff a).mp hcheck
  have hparsed : (readImage h).manifest.fields.parsed = m :=
    Option.some.inj ((parseManifest_bytes (readImage h).manifest).symm.trans hm)
  subst hparsed
  exact ⟨entersKernel_of_bootable verify soc mem gap patience h hverify hready,
    bootable_of_entersKernel verify soc mem gap patience h hverify hready⟩

/-! ## Kernels below the scratch area -/

/-- A kernel that fits the flash is what the flash delivers. -/
theorem flashReads_eq (h : Tools.Consistent a) (hfits : 0xC0 + a.kernel.length ≤ 2 ^ 20) :
    flashReads a = a.kernel := by
  have hsize := h.flashSize
  apply List.ext_getElem (flashReads_length a)
  intro i hi hi'
  have hbyte : a.kernel[i] = a.flash[0xC0 + i] := by
    have hslice := congrArg (fun bs => bs.getD i 0) h.flashKernel
    rw [Tools.slice, List.getD_eq_getElem?_getD, List.getD_eq_getElem?_getD,
      List.getElem?_take_of_lt hi', List.getElem?_drop, List.getElem?_eq_getElem (by omega),
      List.getElem?_eq_getElem hi', Option.getD_some, Option.getD_some] at hslice
    exact hslice.symm
  rw [hbyte]
  simp only [flashReads, List.getElem_map, List.getElem_range]
  rw [Nat.mod_eq_of_lt (by omega), List.getD_eq_getElem?_getD, List.getElem?_eq_getElem (by omega),
    Option.getD_some]

/-- The kernels that the counter alone decides. -/
theorem bootable_of_clear (h : Tools.Consistent a) (counter : DWord) (hnonempty : a.kernel ≠ [])
    (hfits : 0xC0 + a.kernel.length ≤ 2 ^ 20)
    (htop : (readImage h).manifest.loadAddress + a.kernel.length ≤ BOOT_SCRATCH_BASE)
    (hcounter : counter ≤ (readImage h).manifest.version) :
    Bootable a (readImage h).manifest.fields.parsed counter := by
  have haddr := addresses
  have hload : DRAM_BASE ≤ (readImage h).manifest.loadAddress := (readImage_fields h).loadAddress
  have hbase : BOOT_SCRATCH_BASE = 0x88000000 := rfl
  have hbelow : ∀ x, Within (readImage h).manifest.loadAddress a.kernel.length x →
      0x80000000 ≤ x ∧ x < 0x88000000 := by
    intro x hx
    rcases hx with ⟨h₁, h₂⟩
    omega
  have hkept : (readImage h).reloaded = (readImage h).manifest := by
    apply Image.reloaded_of_clear
    intro x hx hin
    have hlt := hbelow x (by rwa [← flashReads_length a])
    rcases hin with ⟨hin, _⟩
    omega
  refine ⟨hnonempty, flashReads_eq h hfits, ?_, ?_, congrArg Manifest.payloadSize hkept,
    congrArg Manifest.payloadHash hkept, ?_⟩
  · intro x hx
    have hlt := hbelow x hx
    exact (Soc.inDram_iff x).mpr (by omega)
  · intro x hx hframe
    have hlt := hbelow x hx
    rw [inFrame_iff] at hframe
    omega
  · show counter ≤ (readImage h).reloaded.version
    rw [hkept]
    exact hcounter

/-! ## Files of an image -/

/-- What the scripts leave in the repository. -/
def Image.files (I : Image) : Tools.Artifacts where
  manifest := I.manifest.bytes
  signature := I.signature
  publicKey := I.publicKey
  pubkeyHash := Fips180.sha256 I.publicKey
  kernel := I.payload
  flash := I.manifest.bytes ++ I.signature ++ I.publicKey ++ I.payload

/-- A verifier that knows one signature. -/
def Image.accepts (I : Image) : Tools.Verify := fun publicKey message signature =>
  decide (publicKey = I.publicKey ∧ message = I.manifest.bytes ∧ signature = I.signature)

theorem Image.files_consistent (I : Image)
    (hfields : Tools.FieldsOk I.manifest.fields.parsed I.payload) : Tools.Consistent I.files where
  manifestSize := I.manifest.length_eq
  signatureSize := I.signature_length
  publicKeySize := I.publicKey_length
  pubkeyHashSize := Fips180.sha256_length _
  fields := by
    intro m hm
    rw [files, parseManifest_bytes] at hm
    cases hm
    exact hfields
  pubkeyHash := rfl
  flashSize := Nat.le_of_eq I.image_length.symm
  flashManifest := I.take_image
  flashSignature := I.signature_image
  flashPublicKey := I.publicKey_image
  flashKernel := (congrArg (List.take I.payload.length) I.drop_image).trans List.take_length

/-- The script's fields pass the checker's comparisons, whatever the kernel. -/
theorem Image.firmware_fieldsOk (version loadAddress entryPoint : Word)
    (kernel signature : List Byte) (h : signature.length = 64) (hversion : 1 ≤ version.toNat)
    (hlen : kernel.length < 2 ^ 32) (hload : 0x80000000 ≤ loadAddress.toNat)
    (hentry : 0x80000000 ≤ entryPoint.toNat) :
    Tools.FieldsOk
      (firmware version loadAddress entryPoint kernel kernel signature h).manifest.fields.parsed
      kernel := by
  have hfields := Manifest.fields_pack version (BitVec.ofNat 32 kernel.length) loadAddress
    entryPoint (Fips180.sha256 kernel) (Fips180.sha256_length _)
  have hsize : (BitVec.ofNat 32 kernel.length).toNat = kernel.length := by
    rw [BitVec.toNat_ofNat, Nat.mod_eq_of_lt hlen]
  rw [firmware, hfields]
  exact ⟨rfl, rfl, hversion, hsize, hload, hentry, rfl⟩

theorem selfLoop_files : Tools.checkArtifacts selfLoop.files = 0 :=
  (Tools.checkArtifacts_iff _).mpr (selfLoop.files_consistent
    (Image.firmware_fieldsOk 1 0x80000000 0x80000000 [0x6F, 0, 0, 0] _ _ (by decide) (by decide)
      (by decide) (by decide)))

/-- The one-instruction kernel, checked and booted. -/
theorem selfLoop_checked :
    EntersKernel selfLoop.accepts blankSoc selfLoop.files (fun _ => 0xFF) (fun _ => 3) 0
      blankReset := by
  have h := (Tools.checkArtifacts_iff _).mp selfLoop_files
  refine (checkArtifacts_boots selfLoop.accepts blankSoc (fun _ => 0xFF) (fun _ => 3) 0
    selfLoop_files (decide_eq_true ⟨rfl, rfl, rfl⟩) _ (parseManifest_bytes selfLoop.manifest)
    blankReset Host.ready_reset).1 ?_
  refine bootable_of_clear h 0 (by decide) (by decide) ?_ ?_
  · exact Nat.le_trans (Nat.add_le_add_right (Nat.le_of_eq selfLoop_load) 4) (by decide)
  · exact Nat.zero_le _

/-- No kernel at all, signed with the development key. -/
def emptyKernel : Image :=
  .firmware 1 0x80000000 0x80000000 [] []
    (ofHex 32 0xaffc05e5cce045966fa8d82c9d653b4e63c1e27c575d9cb2d2ad4f0a12439a1a ++
      ofHex 32 0xb12b4a21879b4c061ac78d6cfe19915f5b69d2e9419c7dd2e5311a25ffd9c70b) (by decide)

/-- The checker accepts it, BootROM does not. -/
theorem emptyKernel_notEntered :
    Tools.checkArtifacts emptyKernel.files = 0 ∧
      emptyKernel.accepts emptyKernel.publicKey emptyKernel.manifest.bytes emptyKernel.signature =
        true ∧
      blankReset.dev.counter ≤ emptyKernel.manifest.version ∧
      ¬ EntersKernel emptyKernel.accepts blankSoc emptyKernel.files (fun _ => 0xFF) (fun _ => 3) 0
        blankReset := by
  have hconsistent := emptyKernel.files_consistent
    (Image.firmware_fieldsOk 1 0x80000000 0x80000000 [] _ _ (by decide) (by decide) (by decide)
      (by decide))
  refine ⟨(Tools.checkArtifacts_iff _).mpr hconsistent, decide_eq_true ⟨rfl, rfl, rfl⟩, ?_, ?_⟩
  · exact Nat.zero_le _
  · intro henters
    exact (guards_of_entersKernel emptyKernel.accepts blankSoc (fun _ => 0xFF) (fun _ => 3) 0
      hconsistent Host.ready_reset henters).1 rfl

end SecureBoot.Bootrom
