import SecureBoot.Tools.Firmware

/-!
# `image_tool.py`

`check_artifacts` over the files of a repository that all exist, with
`struct.unpack` as far as `parse_manifest` uses it. The messages that it prints
for failed checks are its errors.
-/

namespace SecureBoot.Tools

open Words

/-! ## `struct.unpack` -/

def Code.size : Code → Nat
  | .I => 4
  | .H => 2
  | .s count => count

/-- The value at the front of the data. -/
def unpackItem : Code → List Byte → Value
  | .I, bs => .int (leWord (bs.getD 0 0) (bs.getD 1 0) (bs.getD 2 0) (bs.getD 3 0)).toNat
  | .H, bs => .int (bs.getD 1 0 ++ bs.getD 0 0 : BitVec 16).toNat
  | .s count, bs => .bytes (bs.take count)

/-- Data of another length is a `struct.error`. -/
def unpack : List Code → List Byte → Option (List Value)
  | [], [] => some []
  | [], _ :: _ => none
  | code :: codes, bs =>
      if bs.length < code.size then none
      else do
        let values ← unpack codes (bs.drop code.size)
        pure (unpackItem code bs :: values)

/-! ## `parse_manifest` -/

def MANIFEST_SIZE : Nat := 96
def SIGNATURE_SIZE : Nat := 64
def PUBLIC_KEY_SIZE : Nat := 32

def MANIFEST_OFFSET : Nat := 0x0000
def SIGNATURE_OFFSET : Nat := 0x0060
def PUBLIC_KEY_OFFSET : Nat := 0x00A0
def KERNEL_OFFSET : Nat := 0x00C0

/-- `<IHHIIIIII32s32s` -/
def MANIFEST_STRUCT : List Code := [.I, .H, .H, .I, .I, .I, .I, .I, .I, .s 32, .s 32]

/-- `MANIFEST_FIELDS`, in their order. -/
structure Fields where
  magic : Nat
  headerVersion : Nat
  flags : Nat
  version : Nat
  payloadSize : Nat
  loadAddress : Nat
  entryPoint : Nat
  reserved : Nat
  pad : Nat
  payloadHash : List Byte
  nextPubkeyHash : List Byte
deriving DecidableEq, Repr

/-- `dict(zip(MANIFEST_FIELDS, values))` -/
def Fields.ofValues : List Value → Option Fields
  | [.int magic, .int headerVersion, .int flags, .int version, .int payloadSize, .int loadAddress,
      .int entryPoint, .int reserved, .int pad, .bytes payloadHash, .bytes nextPubkeyHash] =>
      some ⟨magic, headerVersion, flags, version, payloadSize, loadAddress, entryPoint, reserved,
        pad, payloadHash, nextPubkeyHash⟩
  | _ => none

/-- A manifest of another size ends the program. -/
def parseManifest (data : List Byte) : Option Fields :=
  if data.length ≠ MANIFEST_SIZE then none
  else do
    let values ← unpack MANIFEST_STRUCT data
    Fields.ofValues values

/-! ## `check_artifacts` -/

/-- The files it reads. -/
structure Artifacts where
  manifest : List Byte
  signature : List Byte
  publicKey : List Byte
  pubkeyHash : List Byte
  kernel : List Byte
  flash : List Byte

def expect (errors : List String) (cond : Bool) (msg : String) : List String :=
  if cond then errors else errors ++ [msg]

def checkSizes (a : Artifacts) (errors : List String) : List String :=
  let errors := expect errors (a.manifest.length = MANIFEST_SIZE) "manifest size is 96 bytes"
  let errors := expect errors (a.signature.length = SIGNATURE_SIZE) "signature size is 64 bytes"
  let errors := expect errors (a.publicKey.length = PUBLIC_KEY_SIZE) "public key size is 32 bytes"
  expect errors (a.pubkeyHash.length = 32) "pubkey hash size is 32 bytes"

def checkFields (m : Fields) (kernel : List Byte) (errors : List String) : List String :=
  let errors := expect errors (m.magic = 0x54424F53) "manifest magic is SBOT / 0x54424F53"
  let errors := expect errors (m.headerVersion = 1) "manifest header_version is 1"
  let errors := expect errors (1 ≤ m.version) "manifest image version is at least 1"
  let errors := expect errors (m.payloadSize = kernel.length)
    "manifest payload_size matches kernel.bin size"
  let errors := expect errors (0x80000000 ≤ m.loadAddress) "manifest load_address is in DRAM"
  let errors := expect errors (0x80000000 ≤ m.entryPoint) "manifest entry_point is in DRAM"
  expect errors (m.payloadHash = Fips180.sha256 kernel) "manifest payload_hash matches kernel.bin"

/-- `data[start:start + size]` -/
def slice (data : List Byte) (start size : Nat) : List Byte := (data.drop start).take size

def checkFlash (a : Artifacts) (errors : List String) : List String :=
  let errors := expect errors (Fips180.sha256 a.publicKey = a.pubkeyHash)
    "pubkey_hash.bin matches SHA-256(public_key.bin)"
  let errors := expect errors (KERNEL_OFFSET + a.kernel.length ≤ a.flash.length)
    "flash image is large enough to contain kernel"
  let errors := expect errors (slice a.flash MANIFEST_OFFSET MANIFEST_SIZE = a.manifest)
    "flash manifest region matches metadata/manifest.bin"
  let errors := expect errors (slice a.flash SIGNATURE_OFFSET SIGNATURE_SIZE = a.signature)
    "flash signature region matches metadata/signature.bin"
  let errors := expect errors (slice a.flash PUBLIC_KEY_OFFSET PUBLIC_KEY_SIZE = a.publicKey)
    "flash public key region matches metadata/public_key.bin"
  expect errors (slice a.flash KERNEL_OFFSET a.kernel.length = a.kernel)
    "flash kernel region matches software/kernel/kernel.bin"

/-- The fields are checked if the size allows to parse them. -/
def artifactErrors (a : Artifacts) : List String :=
  checkFlash a (match parseManifest a.manifest with
    | some m => checkFields m a.kernel (checkSizes a [])
    | none => checkSizes a [])

/-- The exit code. -/
def checkArtifacts (a : Artifacts) : Nat := if artifactErrors a = [] then 0 else 1

/-! ## What it accepts -/

theorem expect_eq_nil (errors : List String) (cond : Bool) (msg : String) :
    expect errors cond msg = [] ↔ cond = true ∧ errors = [] := by
  cases cond with
  | false => simp [expect]
  | true => simp [expect]

/-- The manifest's fields against the kernel. -/
structure FieldsOk (m : Fields) (kernel : List Byte) : Prop where
  magic : m.magic = 0x54424F53
  headerVersion : m.headerVersion = 1
  version : 1 ≤ m.version
  payloadSize : m.payloadSize = kernel.length
  loadAddress : 0x80000000 ≤ m.loadAddress
  entryPoint : 0x80000000 ≤ m.entryPoint
  payloadHash : m.payloadHash = Fips180.sha256 kernel

/-- The files agree with one another. -/
structure Consistent (a : Artifacts) : Prop where
  manifestSize : a.manifest.length = 96
  signatureSize : a.signature.length = 64
  publicKeySize : a.publicKey.length = 32
  pubkeyHashSize : a.pubkeyHash.length = 32
  fields : ∀ m, parseManifest a.manifest = some m → FieldsOk m a.kernel
  pubkeyHash : Fips180.sha256 a.publicKey = a.pubkeyHash
  flashSize : 0xC0 + a.kernel.length ≤ a.flash.length
  flashManifest : slice a.flash 0 96 = a.manifest
  flashSignature : slice a.flash 0x60 64 = a.signature
  flashPublicKey : slice a.flash 0xA0 32 = a.publicKey
  flashKernel : slice a.flash 0xC0 a.kernel.length = a.kernel

theorem checkSizes_eq_nil (a : Artifacts) (errors : List String) :
    checkSizes a errors = [] ↔ (a.manifest.length = 96 ∧ a.signature.length = 64 ∧
      a.publicKey.length = 32 ∧ a.pubkeyHash.length = 32) ∧ errors = [] := by
  simp only [checkSizes, expect_eq_nil, decide_eq_true_eq]
  constructor
  · intro h
    rcases h with ⟨hhash, hkey, hsignature, hmanifest, hbefore⟩
    exact ⟨⟨hmanifest, hsignature, hkey, hhash⟩, hbefore⟩
  · intro h
    rcases h with ⟨⟨hmanifest, hsignature, hkey, hhash⟩, hbefore⟩
    exact ⟨hhash, hkey, hsignature, hmanifest, hbefore⟩

theorem checkFields_eq_nil (m : Fields) (kernel : List Byte) (errors : List String) :
    checkFields m kernel errors = [] ↔ FieldsOk m kernel ∧ errors = [] := by
  simp only [checkFields, expect_eq_nil, decide_eq_true_eq]
  constructor
  · intro h
    rcases h with ⟨hhash, hentry, hload, hsize, hversion, hheader, hmagic, hbefore⟩
    exact ⟨⟨hmagic, hheader, hversion, hsize, hload, hentry, hhash⟩, hbefore⟩
  · intro h
    rcases h with ⟨⟨hmagic, hheader, hversion, hsize, hload, hentry, hhash⟩, hbefore⟩
    exact ⟨hhash, hentry, hload, hsize, hversion, hheader, hmagic, hbefore⟩

theorem checkFlash_eq_nil (a : Artifacts) (errors : List String) :
    checkFlash a errors = [] ↔ (Fips180.sha256 a.publicKey = a.pubkeyHash ∧
      0xC0 + a.kernel.length ≤ a.flash.length ∧ slice a.flash 0 96 = a.manifest ∧
      slice a.flash 0x60 64 = a.signature ∧ slice a.flash 0xA0 32 = a.publicKey ∧
      slice a.flash 0xC0 a.kernel.length = a.kernel) ∧ errors = [] := by
  simp only [checkFlash, expect_eq_nil, decide_eq_true_eq]
  constructor
  · intro h
    rcases h with ⟨hkernel, hkey, hsignature, hmanifest, hsize, hhash, hbefore⟩
    exact ⟨⟨hhash, hsize, hmanifest, hsignature, hkey, hkernel⟩, hbefore⟩
  · intro h
    rcases h with ⟨⟨hhash, hsize, hmanifest, hsignature, hkey, hkernel⟩, hbefore⟩
    exact ⟨hkernel, hkey, hsignature, hmanifest, hsize, hhash, hbefore⟩

/-- Success means that the files agree. -/
theorem checkArtifacts_iff (a : Artifacts) : checkArtifacts a = 0 ↔ Consistent a := by
  have hcode : checkArtifacts a = 0 ↔ artifactErrors a = [] := by
    rw [checkArtifacts]
    split
    · simp [*]
    · simp [*]
  rw [hcode, artifactErrors, checkFlash_eq_nil]
  refine (and_congr_right fun _ => (?_ : _ ↔ (a.manifest.length = 96 ∧ a.signature.length = 64 ∧
    a.publicKey.length = 32 ∧ a.pubkeyHash.length = 32) ∧
      ∀ m, parseManifest a.manifest = some m → FieldsOk m a.kernel)).trans ?_
  · cases hparse : parseManifest a.manifest with
    | none => simp [checkSizes_eq_nil]
    | some m => simp [checkFields_eq_nil, checkSizes_eq_nil, and_comm]
  · constructor
    · intro h
      rcases h with ⟨⟨hhash, hsize, hmanifest, hsignature, hkey, hkernel⟩,
        ⟨hmans, hsigs, hkeys, hhashs⟩, hfields⟩
      exact ⟨hmans, hsigs, hkeys, hhashs, hfields, hhash, hsize, hmanifest, hsignature, hkey,
        hkernel⟩
    · intro h
      exact ⟨⟨h.pubkeyHash, h.flashSize, h.flashManifest, h.flashSignature, h.flashPublicKey,
        h.flashKernel⟩, ⟨h.manifestSize, h.signatureSize, h.publicKeySize, h.pubkeyHashSize⟩,
        h.fields⟩

end SecureBoot.Tools
