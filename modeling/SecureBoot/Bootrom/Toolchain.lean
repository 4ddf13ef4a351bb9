import SecureBoot.Bootrom.Policy
import SecureBoot.Bootrom.Transfers
import SecureBoot.Tools.Firmware

/-!
# Every image the tools build boots

The scripts on one side, the SPI block, the packed C structure and BootROM on
the other, for every kernel that fits the flash. Before that Stage 2 with its
driver, the block and the host script together, from any state of the block.
-/

namespace SecureBoot

/-- The SoC on a host that runs `verify_ed25519_from_files.py`. -/
def Soc.onHost {σ : Type} (soc : Soc σ) (verify : Tools.Verify) : Soc σ :=
  { soc with script := Tools.hostScript verify }

namespace Bootrom

open Words Exec Spi

/-! ## Stage 2 against the host verifier -/

section Stage2

variable {σ : Type} (soc : Soc σ)

/-- Three buffers of the sizes the script asks for. -/
theorem hostScript_stagedFiles (verify : Tools.Verify) (mem : Memory) :
    Tools.hostScript verify (stagedFiles mem) =
      verify (mem.read PUBLIC_KEY_BUFFER 32) (mem.read MANIFEST_BUFFER 96)
        (mem.read SIGNATURE_BUFFER 64) :=
  Tools.hostScript_eq verify _ (Memory.read_length _ _ _) (Memory.read_length _ _ _)
    (Memory.read_length _ _ _)

/-- Stage 2 delivers manifest, signature and key, byte for byte and in this order, to the host
verifier. It returns if the verifier accepts them and enters recovery otherwise; the memory is
left alone. -/
theorem checkManifestSignature_agrees (verify : Tools.Verify) (s : Machine (Devices σ)) :
    ∃ v : Ed25519.Verifier,
      v.files = ⟨s.mem.read MANIFEST_BUFFER 96, s.mem.read SIGNATURE_BUFFER 64,
        s.mem.read PUBLIC_KEY_BUFFER 32⟩ ∧
      v.buffer.toList = s.mem.read MANIFEST_BUFFER 96 ++ s.mem.read SIGNATURE_BUFFER 64 ++
        s.mem.read PUBLIC_KEY_BUFFER 32 ∧
      checkManifestSignature (soc.onHost verify).platform s =
        if verify (s.mem.read PUBLIC_KEY_BUFFER 32) (s.mem.read MANIFEST_BUFFER 96)
            (s.mem.read SIGNATURE_BUFFER 64) then
          .ok () { s with dev := { s.dev with ed25519 := v } }
        else .error .recovery (recoveryState (soc.onHost verify).platform SR_MANIFEST_SIGNATURE
          { s with dev := { s.dev with ed25519 := v } }) := by
  obtain ⟨v, hfiles, hbuffer, heq⟩ := checkManifestSignature_delivers (soc.onHost verify) s
  refine ⟨v, hfiles, hbuffer, ?_⟩
  rw [heq, ← hostScript_stagedFiles verify s.mem]
  rfl

end Stage2

/-! ## `manifest_t` -/

/-- The fields of the packed structure. -/
structure ManifestT where
  magic : Word
  headerVersion : BitVec 16
  flags : BitVec 16
  version : Word
  payloadSize : Word
  loadAddress : Word
  entryPoint : Word
  reserved : Word
  pad : Word
  payloadHash : List Byte
  nextPubkeyHash : List Byte
deriving DecidableEq, Repr

/-- What a C program reads through a `manifest_t` pointer. -/
def Manifest.fields (M : Manifest) : ManifestT where
  magic := M.word MAGIC
  headerVersion := M.headerVersion
  flags := M.bytes.getD 7 0 ++ M.bytes.getD 6 0
  version := M.word VERSION
  payloadSize := M.word PAYLOAD_SIZE
  loadAddress := M.word LOAD_ADDRESS
  entryPoint := M.word ENTRY_POINT
  reserved := M.word 24
  pad := M.word 28
  payloadHash := M.payloadHash
  nextPubkeyHash := (M.bytes.drop 64).take 32

/-- Decoding gives back what was packed. -/
theorem Manifest.fields_pack (version payloadSize loadAddress entryPoint : Word)
    (hash : List Byte) (h : hash.length = 32) :
    (Manifest.pack version payloadSize loadAddress entryPoint hash h).fields =
      { magic := MANIFEST_MAGIC
        headerVersion := MANIFEST_HEADER_VERSION
        flags := 0
        version := version
        payloadSize := payloadSize
        loadAddress := loadAddress
        entryPoint := entryPoint
        reserved := 0
        pad := 0
        payloadHash := hash
        nextPubkeyHash := List.replicate 32 0 } := by
  have hfront : (leBytes MANIFEST_MAGIC ++ [1, 0, 0, 0] ++ leBytes version ++
      leBytes payloadSize ++ leBytes loadAddress ++ leBytes entryPoint ++ List.replicate 8 0 ++
      hash).length = 64 := by simp [h]
  have hnext : ((Manifest.pack version payloadSize loadAddress entryPoint hash h).bytes.drop
      64).take 32 = List.replicate 32 0 := by
    rw [pack, List.drop_left' hfront, List.take_of_length_le (by simp)]
  have hheader := Manifest.pack_headerOk version payloadSize loadAddress entryPoint hash h
  rw [fields, hnext, Manifest.pack_payloadHash, ← Manifest.magic, hheader.1, hheader.2,
    show word (pack version payloadSize loadAddress entryPoint hash h) VERSION = version from
      leWord_byteAt version,
    show word (pack version payloadSize loadAddress entryPoint hash h) PAYLOAD_SIZE =
      payloadSize from leWord_byteAt payloadSize,
    show word (pack version payloadSize loadAddress entryPoint hash h) LOAD_ADDRESS =
      loadAddress from leWord_byteAt loadAddress,
    show word (pack version payloadSize loadAddress entryPoint hash h) ENTRY_POINT =
      entryPoint from leWord_byteAt entryPoint]
  have hflags : (pack version payloadSize loadAddress entryPoint hash h).bytes.getD 7 0 ++
      (pack version payloadSize loadAddress entryPoint hash h).bytes.getD 6 0 = (0 : BitVec 16) :=
    show (0#8 ++ 0#8 : BitVec 16) = 0 by decide
  have hreserved : word (pack version payloadSize loadAddress entryPoint hash h) 24 = 0 :=
    show leWord 0 0 0 0 = 0 by decide
  have hpad : word (pack version payloadSize loadAddress entryPoint hash h) 28 = 0 :=
    show leWord 0 0 0 0 = 0 by decide
  rw [hflags, hreserved, hpad]

/-! ## The image -/

variable (version : Word) (kernel : List Byte)

/-- What the scripts build for a kernel. -/
def builtManifest : Manifest :=
  .pack version (BitVec.ofNat 32 kernel.length) 0x80000000 0x80000000 (Fips180.sha256 kernel)
    (Fips180.sha256_length _)

/-- `struct.pack` agrees with the layout of the structure. -/
theorem manifestBin_eq (h : kernel.length < 2 ^ 32) :
    Tools.manifestBin version.toNat kernel = some (builtManifest version kernel).bytes := by
  have hmagic : Tools.packItem .I (.int 0x54424F53) = some (leBytes MANIFEST_MAGIC) :=
    Tools.packItem_I (by decide)
  have hversion : Tools.packItem .H (.int 1) = some [1, 0] := by decide
  have hflags : Tools.packItem .H (.int 0) = some [0, 0] := by decide
  have hdram : Tools.packItem .I (.int 0x80000000) = some (leBytes 0x80000000) :=
    Tools.packItem_I (by decide)
  have hzero : Tools.packItem .I (.int 0) = some [0, 0, 0, 0] := by decide
  have hnumber : Tools.packItem .I (.int version.toNat) = some (leBytes version) := by
    rw [Tools.packItem_I version.isLt, BitVec.ofNat_toNat, BitVec.setWidth_eq]
  have hhash := Tools.packItem_s (Fips180.sha256_length kernel)
  have hnext := Tools.packItem_s
    (List.length_replicate : (List.replicate 32 (0 : Byte)).length = 32)
  simp only [Tools.manifestBin, Tools.structFormat, Tools.pack, hmagic, hversion, hflags, hdram,
    hzero, hnumber, hhash, hnext, Tools.packItem_I h, Option.bind_eq_bind, Option.bind_some,
    Option.pure_def, builtManifest, Manifest.pack]
  simp only [List.append_assoc, List.cons_append, List.nil_append, List.append_nil,
    List.replicate_succ, List.replicate_zero]

theorem builtManifest_payloadSize (hfits : kernel.length ≤ 2 ^ 20 - 0xC0) :
    (builtManifest version kernel).payloadSize = kernel.length := by
  rw [builtManifest, Manifest.pack_payloadSize, BitVec.toNat_ofNat]
  omega

theorem builtManifest_packed (hpos : 1 ≤ kernel.length) (hfits : kernel.length ≤ 2 ^ 20 - 0xC0) :
    Packed (builtManifest version kernel) := by
  have hsize := builtManifest_payloadSize version kernel hfits
  constructor
  · simp [builtManifest]
  · simp [builtManifest]
  · omega
  · omega

variable (nacl : Tools.NaCl) (sk : nacl.SigningKey)

def builtImage : Image where
  manifest := builtManifest version kernel
  signature := nacl.sign sk (builtManifest version kernel).bytes
  publicKey := nacl.verifyKey sk
  payload := kernel
  signature_length := nacl.sign_length sk _
  publicKey_length := nacl.verifyKey_length sk

theorem buildFlash_eq (h : kernel.length < 2 ^ 32) :
    Tools.buildFlash nacl sk version.toNat kernel =
      some (Tools.flashImageHex ((builtManifest version kernel).bytes ++
        nacl.sign sk (builtManifest version kernel).bytes ++ nacl.verifyKey sk ++ kernel)) := by
  rw [Tools.buildFlash, manifestBin_eq version kernel h]
  simp only [Option.bind_eq_bind, Option.bind_some, Tools.flashImageBin,
    (builtManifest version kernel).length_eq, if_true, Tools.publicKeyBin, Option.pure_def]

/-! ## The chip -/

/-- The default parameter of `FlashStorage`. -/
def ADDR_W : Nat := 20

/-- `FlashStorage` over whatever its memory powers up with. -/
def hexStorage (text : List Char) (mem : Nat → Byte) : Storage where
  addrWidth := ADDR_W
  positive := by decide
  fits := by decide
  mem := Tools.readmemh text mem

/-- The SoC with a text in its flash and the hash of a public key in its OTP. -/
def programmed (soc : Soc Host) (text : List Char) (mem : Nat → Byte) (gap : Nat → Nat)
    (patience : Nat) : Soc Host :=
  { soc.onHost nacl.verify with
    port := Host.port (hexStorage text mem) gap patience
    otpHash := ⟨(Tools.pubkeyHashBin nacl sk).toArray, by simp [Tools.pubkeyHashBin]⟩ }

theorem hexStorage_byte (data : List Byte) (mem : Nat → Byte) (a : Nat)
    (h : a % 2 ^ 20 < data.length) :
    (hexStorage (Tools.flashImageHex data) mem).memory a = data.getD (a % 2 ^ 20) 0 := by
  show Tools.readmemh _ mem (a % 2 ^ 20) = _
  rw [Tools.readmemh_flashImageHex, List.getD_eq_getElem?_getD, List.getD_eq_getElem?_getD,
    List.getElem?_eq_getElem h]
  rfl

theorem hexStorage_memory (I : Image) (mem : Nat → Byte) (n : Nat) (hlen : I.payload.length = n)
    (hfits : 0xC0 + n ≤ 2 ^ 20) (a : Nat) (ha : a < 0xC0 + n) :
    (hexStorage (Tools.flashImageHex (I.manifest.bytes ++ I.signature ++ I.publicKey ++
      I.payload)) mem).memory a = I.flash a := by
  have hall := I.image_length
  rw [hlen] at hall
  have hmod : a % 2 ^ 20 = a := Nat.mod_eq_of_lt (by omega)
  rw [hexStorage_byte _ _ _ (by omega), hmod, Image.flash,
    Memory.write_apply_of_inside _ _ _ _ (Nat.zero_le a) (by omega), Nat.sub_zero]

theorem builtImage_verified (soc : Soc Host) (text : List Char) (mem : Nat → Byte)
    (gap : Nat → Nat) (patience : Nat) :
    (builtImage version kernel nacl sk).Verified
      (programmed nacl sk soc text mem gap patience) := by
  refine ⟨Manifest.pack_headerOk _ _ _ _ _ (Fips180.sha256_length _), rfl, ?_⟩
  have hverify := nacl.verify_sign sk (builtManifest version kernel).bytes
  exact (Tools.hostScript_eq nacl.verify _ (builtManifest version kernel).length_eq
    (nacl.sign_length sk _) (nacl.verifyKey_length sk)).trans hverify

/-- The kernel is entered: the manifest was decoded as it was packed, the kernel is at the start of
DRAM, and the counter is at the version. -/
structure Started (s accepted s' : Machine (Devices Host)) : Prop where
  fields : (Manifest.ofMem accepted.mem).fields =
    { magic := MANIFEST_MAGIC
      headerVersion := MANIFEST_HEADER_VERSION
      flags := 0
      version := version
      payloadSize := BitVec.ofNat 32 kernel.length
      loadAddress := 0x80000000
      entryPoint := 0x80000000
      reserved := 0
      pad := 0
      payloadHash := Fips180.sha256 kernel
      nextPubkeyHash := List.replicate 32 0 }
  loaded : s'.mem.read 0x80000000 kernel.length = kernel
  counter : s'.dev.counter.toNat = max s.dev.counter.toNat version.toNat
  entry : s'.mepc = 0x80000000

/-- Every image the tools build boots on a chip that is programmed with its key and has not seen a
later version. -/
theorem toolchain_boots (hpos : 1 ≤ kernel.length) (hfits : kernel.length ≤ 2 ^ 20 - 0xC0)
    (soc : Soc Host) (mem : Nat → Byte) (gap : Nat → Nat) (patience : Nat)
    (s : Machine (Devices Host)) (hready : s.dev.spi.Ready)
    (hcounter : s.dev.counter ≤ version.setWidth 64) :
    ∃ text accepted s', Tools.buildFlash nacl sk version.toNat kernel = some text ∧
      untilStage3 (programmed nacl sk soc text mem gap patience).platform s = .ok () accepted ∧
      bootromMain (programmed nacl sk soc text mem gap patience).platform s = .error .kernel s' ∧
      Started version kernel s accepted s' := by
  have hpacked := builtManifest_packed version kernel hpos hfits
  have hsize := builtManifest_payloadSize version kernel hfits
  generalize htext : Tools.flashImageHex ((builtManifest version kernel).bytes ++
    nacl.sign sk (builtManifest version kernel).bytes ++ nacl.verifyKey sk ++ kernel) = text
  have hbuild : Tools.buildFlash nacl sk version.toNat kernel = some text := by
    rw [← htext]
    exact buildFlash_eq version kernel nacl sk (by omega)
  have hserved : (builtImage version kernel nacl sk).ServedBy
      (programmed nacl sk soc text mem gap patience) s.dev.spi := by
    refine (builtImage version kernel nacl sk).servedBy_host _ (hexStorage text mem) gap patience
      rfl hsize.symm ?_ s.dev.spi hready
    intro a ha
    rw [← htext]
    exact hexStorage_memory (builtImage version kernel nacl sk) mem _ hsize.symm (by omega) a ha
  have hverified := builtImage_verified version kernel nacl sk soc text mem gap patience
  obtain ⟨t, hloaded, hrun⟩ := bootromMain_loads _ (builtImage version kernel nacl sk) s hserved
    hverified hpacked.not_loadRefused (hpacked.ramRange _) hpacked.loadClear
  have hhash : Fips180.sha256 kernel = (builtManifest version kernel).payloadHash := by
    simp [builtManifest]
  have hversion : (builtManifest version kernel).version = version.setWidth 64 := by
    simp [builtManifest]
  have hkept : t.dev.counter = s.dev.counter := (Prod.mk.inj hloaded.kept.dev).1
  have haccepts : t.dev.counter ≤ (Manifest.ofMem t.mem).version := by
    rw [hkept, hloaded.manifest]
    exact hversion ▸ hcounter
  have hboots := boots_of_loaded (programmed nacl sk soc text mem gap patience) _ s t hpacked
    hloaded
  have hkernel := hrun.trans ((if_pos hhash).trans (afterLoad_accepts _ t haccepts))
  obtain ⟨accepted, _, _, hrunKernel⟩ := bootromMain_kernel _ hkernel
  refine ⟨text, accepted, _, hbuild, hrunKernel.stages, hkernel, ?_, ?_, ?_, rfl⟩
  · rw [hserved.accepted hrunKernel.stages]
    exact Manifest.fields_pack _ _ _ _ _ (Fips180.sha256_length kernel)
  · rw [← hsize]
    exact hboots.payload
  · have hwide : (version.setWidth 64).toNat = version.toNat := by
      rw [BitVec.toNat_setWidth]
      exact Nat.mod_eq_of_lt (by omega)
    rw [← hwide, ← hversion]
    exact hboots.counter

/-! ## The development key -/

/-- PyNaCl with one key pair, as far as one signature. -/
def developmentKey : Tools.NaCl where
  SigningKey := Unit
  verifyKey _ := Ed25519.metadata.publicKey
  sign _ message := if message = selfLoop.manifest.bytes then selfLoop.signature
    else List.replicate 64 0
  verify publicKey message signature := decide (publicKey = Ed25519.metadata.publicKey ∧
    signature = if message = selfLoop.manifest.bytes then selfLoop.signature
      else List.replicate 64 0)
  verifyKey_length _ := selfLoop.publicKey_length
  sign_length _ message := by
    by_cases h : message = selfLoop.manifest.bytes
    · rw [if_pos h, selfLoop.signature_length]
    · rw [if_neg h, List.length_replicate]
  verify_sign _ _ := decide_eq_true ⟨rfl, rfl⟩

/-- The one-instruction kernel through the tools, onto the chip with the real SPI block. -/
theorem selfLoop_toolchain :
    ∃ text accepted s',
      Tools.buildFlash developmentKey () 1 [0x6F, 0, 0, 0] = some text ∧
      untilStage3 (programmed developmentKey () blankSoc text (fun _ => 0xFF) (fun _ => 3)
        0).platform blankReset = .ok () accepted ∧
      bootromMain (programmed developmentKey () blankSoc text (fun _ => 0xFF) (fun _ => 3)
        0).platform blankReset = .error .kernel s' ∧
      Started 1 [0x6F, 0, 0, 0] blankReset accepted s' :=
  toolchain_boots 1 [0x6F, 0, 0, 0] developmentKey () (by decide) (by decide) blankSoc
    (fun _ => 0xFF) (fun _ => 3) 0 blankReset Host.ready_reset (by decide)

end Bootrom

end SecureBoot
