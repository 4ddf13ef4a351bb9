import Mathlib.Data.List.TakeDrop
import SecureBoot.Bootrom.Toolchain
import SecureBoot.Tools.Artifacts

/-!
# The kernel-replacement image

What `assemble_flash.py` of the kernel-tampering test writes for a signed
manifest and another kernel, and when Stage 3 loads that kernel from it.
-/

namespace SecureBoot.Tools

/-! ## `assemble_flash.py` -/

/-- `struct.unpack_from("<I", data, offset)[0]` -/
def unpackFrom (data : List Byte) (offset : Nat) : Option Nat :=
  if data.length < offset + 4 then none
  else some (Words.leWord (data.getD offset 0) (data.getD (offset + 1) 0)
    (data.getD (offset + 2) 0) (data.getD (offset + 3) 0)).toNat

/-- `bad_kernel_padded` -/
def padKernel (badKernel : List Byte) (payloadSize : Nat) : List Byte :=
  if payloadSize < badKernel.length then badKernel.take payloadSize
  else if badKernel.length < payloadSize then
    badKernel ++ List.replicate (payloadSize - badKernel.length) 0
  else badKernel

/-- The file it writes, unless an assertion fails. -/
def assembleFlash (manifestBytes signatureBytes pubkeyBytes badKernel : List Byte) :
    Option (List Byte) :=
  if manifestBytes.length = 96 ∧ signatureBytes.length = 64 ∧ pubkeyBytes.length = 32 then do
    let payloadSize ← unpackFrom manifestBytes 8
    let image := manifestBytes ++ signatureBytes ++ pubkeyBytes ++ padKernel badKernel payloadSize
    if image.length = 96 + 64 + 32 + payloadSize then some image else none
  else none

theorem takeD_append_replicate (bs : List Byte) (n : Nat) (h : bs.length ≤ n) :
    bs ++ List.replicate (n - bs.length) 0 = bs.takeD n 0 := by
  induction bs generalizing n with
  | nil => simp
  | cons b bs ih =>
      cases n with
      | zero => simp at h
      | succ n =>
          rw [List.length_cons, Nat.add_sub_add_right, List.cons_append,
            ih n (by simpa using h)]
          rfl

/-- The three branches cut or fill with zeros. -/
theorem padKernel_eq (badKernel : List Byte) (payloadSize : Nat) :
    padKernel badKernel payloadSize = badKernel.takeD payloadSize 0 := by
  unfold padKernel
  by_cases hlong : payloadSize < badKernel.length
  · rw [if_pos hlong, List.takeD_eq_take 0 (Nat.le_of_lt hlong)]
  · rw [if_neg hlong, ← takeD_append_replicate badKernel payloadSize (by omega)]
    by_cases hshort : badKernel.length < payloadSize
    · rw [if_pos hshort]
    · rw [if_neg hshort, Nat.sub_eq_zero_of_le (by omega), List.replicate_zero, List.append_nil]

end SecureBoot.Tools

namespace SecureBoot.Bootrom

open Words Exec Spi

/-- The image with its payload cut or filled with zeros to the size in the manifest. -/
def Image.fitted (I : Image) : Image :=
  { I with payload := I.payload.takeD I.manifest.payloadSize 0 }

theorem Image.fitted_length (I : Image) : I.fitted.payload.length = I.fitted.manifest.payloadSize :=
  List.takeD_length _ _ _

/-- Stage 3 puts the bytes at the load address, and its verdict is that of their hash. -/
def Loads (soc : Soc Host) (M : Manifest) (payload : List Byte) (s : Machine (Devices Host)) :
    Prop :=
  ∃ mem q, mem.read M.loadAddress M.payloadSize = payload ∧
    checkAndLoadKernel soc.platform MANIFEST_BUFFER s =
      if Fips180.sha256 payload = M.payloadHash then
        .ok () { s with mem := mem, dev := { s.dev with spi := q } }
      else .error .recovery (recoveryState soc.platform SR_LOAD_KERNEL
        { s with mem := mem, dev := { s.dev with spi := q } })

/-- An image in which the payload of `I` is the kernel: behind manifest, signature and key are as
many bytes as the manifest says, and Stage 3 loads and hashes these wherever it comes to that. -/
structure Replaces (I : Image) (image : List Byte) : Prop where
  layout : image = I.manifest.bytes ++ I.signature ++ I.publicKey ++
    I.payload.takeD I.manifest.payloadSize 0
  loads : ∀ (soc : Soc Host) (mem : Nat → Byte) (gap : Nat → Nat) (patience : Nat)
    (s : Machine (Devices Host)),
    soc.port = Host.port (hexStorage (Tools.flashImageHex image) mem) gap patience →
    s.dev.spi.Ready → Manifest.ofMem s.mem = I.manifest → ¬ LoadRefused I.manifest →
    0xC0 + I.manifest.payloadSize ≤ 2 ^ 20 →
    soc.platform.RamRange I.manifest.loadAddress I.manifest.payloadSize → LoadClear I.manifest →
    Loads soc I.manifest (I.payload.takeD I.manifest.payloadSize 0) s

/-- The image of a fitted payload. -/
theorem replaces_fitted (I : Image) :
    Replaces I (I.manifest.bytes ++ I.signature ++ I.publicKey ++
      I.payload.takeD I.manifest.payloadSize 0) := by
  refine ⟨rfl, ?_⟩
  intro soc mem gap patience s hport hready hman hguard hfits hram hclear
  have hflash := hexStorage_memory I.fitted mem I.manifest.payloadSize I.fitted_length hfits
  rcases I.fitted.payload_served _ gap patience I.fitted_length hflash hguard s.dev.spi hready with
    ⟨q, hserves⟩
  rw [Image.fitted, ← hport] at hserves
  obtain ⟨mem', _, hread, _, hstage⟩ :=
    checkAndLoadKernel_serves soc I.fitted s q hman hguard hram hclear hserves
  exact ⟨mem', q, hread, hstage⟩

/-- The script takes the word at offset 8 for the size. -/
theorem assembleFlash_eq (I : Image) :
    Tools.assembleFlash I.manifest.bytes I.signature I.publicKey I.payload =
      some (I.manifest.bytes ++ I.signature ++ I.publicKey ++
        I.payload.takeD (I.manifest.word VERSION).toNat 0) := by
  have hman := I.manifest.length_eq
  have hsize : Tools.unpackFrom I.manifest.bytes 8 = some (I.manifest.word VERSION).toNat :=
    if_neg (by omega)
  have hlen : (I.manifest.bytes ++ I.signature ++ I.publicKey ++
      I.payload.takeD (I.manifest.word VERSION).toNat 0).length =
        96 + 64 + 32 + (I.manifest.word VERSION).toNat := by
    simp only [List.length_append, List.takeD_length, hman, I.signature_length, I.publicKey_length]
  rw [Tools.assembleFlash, if_pos ⟨hman, I.signature_length, I.publicKey_length⟩, hsize]
  simp only [Option.bind_eq_bind, Option.bind_some, Tools.padKernel_eq]
  exact if_pos hlen

/-- The bytes that the script appends are as many as the size in the manifest only if that word is
the size. -/
theorem version_of_replaces (I : Image)
    (h : Replaces I (I.manifest.bytes ++ I.signature ++ I.publicKey ++
      I.payload.takeD (I.manifest.word VERSION).toNat 0)) :
    I.manifest.word VERSION = I.manifest.word PAYLOAD_SIZE := by
  have hpayload := congrArg List.length (List.append_cancel_left h.layout)
  rw [List.takeD_length, List.takeD_length] at hpayload
  exact BitVec.eq_of_toNat_eq hpayload

/-- What `assemble_flash.py` writes contains the replacement kernel exactly for the manifests whose
version is the size of their payload. -/
theorem assembleFlash_replaces_iff (I : Image) :
    ∃ image, Tools.assembleFlash I.manifest.bytes I.signature I.publicKey I.payload = some image ∧
      (Replaces I image ↔ I.manifest.word VERSION = I.manifest.word PAYLOAD_SIZE) := by
  refine ⟨_, assembleFlash_eq I, version_of_replaces I, ?_⟩
  intro heq
  rw [heq]
  exact replaces_fitted I

/-- A kernel that does nothing, of the size of the one it replaces. -/
def nopLoop : Image := { selfLoop with payload := [0x13, 0, 0, 0] }

/-- Version 1: one byte of the four is in the image. -/
theorem nopLoop_notReplaced : ¬ ∃ image, Tools.assembleFlash nopLoop.manifest.bytes
    nopLoop.signature nopLoop.publicKey nopLoop.payload = some image ∧ Replaces nopLoop image := by
  intro h
  rcases h with ⟨image, hwritten, hreplaces⟩
  rw [assembleFlash_eq] at hwritten
  cases hwritten
  have hversion := congrArg (BitVec.setWidth 64) (version_of_replaces nopLoop hreplaces)
  have hone : nopLoop.manifest.version = 1 := by simp [nopLoop, selfLoop]
  have hfour : nopLoop.manifest.payloadSize = 4 := selfLoop_size
  rw [← Manifest.version, hone] at hversion
  have hsize := congrArg BitVec.toNat hversion
  rw [BitVec.toNat_setWidth, ← Manifest.payloadSize, hfour] at hsize
  exact absurd hsize (by decide)

end SecureBoot.Bootrom
