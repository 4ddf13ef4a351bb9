import SecureBoot.Bootrom.Code

/-!
# The manifest

`manifest_t` as its 96 bytes, with the fields BootROM decodes from them, and
the manifest a memory holds in the manifest buffer.
-/

namespace SecureBoot.Bootrom

open Words

structure Manifest where
  bytes : List Byte
  length_eq : bytes.length = 96
deriving DecidableEq

namespace Manifest

/-- A little-endian field of the packed structure. -/
def word (M : Manifest) (offset : Nat) : Word :=
  leWord (M.bytes.getD offset 0) (M.bytes.getD (offset + 1) 0) (M.bytes.getD (offset + 2) 0)
    (M.bytes.getD (offset + 3) 0)

def magic (M : Manifest) : Word := M.word MAGIC
def headerVersion (M : Manifest) : BitVec 16 :=
  M.bytes.getD (HEADER_VERSION + 1) 0 ++ M.bytes.getD HEADER_VERSION 0
def version (M : Manifest) : DWord := (M.word VERSION).setWidth 64
def payloadSize (M : Manifest) : Nat := (M.word PAYLOAD_SIZE).toNat
def loadAddress (M : Manifest) : Nat := (M.word LOAD_ADDRESS).toNat
def entryPoint (M : Manifest) : Nat := (M.word ENTRY_POINT).toNat
def payloadHash (M : Manifest) : List Byte := (M.bytes.drop PAYLOAD_HASH).take 32

/-- What the Stage 0 checks ask of a manifest. -/
def HeaderOk (M : Manifest) : Prop :=
  M.magic = MANIFEST_MAGIC ∧ M.headerVersion = MANIFEST_HEADER_VERSION

instance (M : Manifest) : Decidable M.HeaderOk := inferInstanceAs (Decidable (_ ∧ _))

/-- The manifest in the manifest buffer. -/
def ofMem (mem : Memory) : Manifest := ⟨mem.read MANIFEST_BUFFER 96, Memory.read_length _ _ _⟩

theorem ofMem_word (mem : Memory) (offset : Nat) (h : offset + 4 ≤ 96) :
    (ofMem mem).word offset = mem.word (MANIFEST_BUFFER + offset) := by
  simp only [word, ofMem, Memory.word]
  rw [Memory.read_getD _ _ _ _ (by omega), Memory.read_getD _ _ _ _ (by omega),
    Memory.read_getD _ _ _ _ (by omega), Memory.read_getD _ _ _ _ (by omega)]
  rfl

theorem ofMem_headerVersion (mem : Memory) :
    (ofMem mem).headerVersion = mem.half (MANIFEST_BUFFER + HEADER_VERSION) := by
  simp only [headerVersion, ofMem, Memory.half]
  rw [Memory.read_getD _ _ _ _ (by decide), Memory.read_getD _ _ _ _ (by decide)]
  rfl

theorem ofMem_payloadHash (mem : Memory) :
    (ofMem mem).payloadHash = mem.read (MANIFEST_BUFFER + PAYLOAD_HASH) 32 := by
  have h₁ : mem.read MANIFEST_BUFFER 96 =
      mem.read MANIFEST_BUFFER 32 ++ mem.read (MANIFEST_BUFFER + 32) 64 :=
    Memory.read_add mem MANIFEST_BUFFER 32 64
  have h₂ : mem.read (MANIFEST_BUFFER + 32) 64 =
      mem.read (MANIFEST_BUFFER + 32) 32 ++ mem.read (MANIFEST_BUFFER + 32 + 32) 32 :=
    Memory.read_add mem (MANIFEST_BUFFER + 32) 32 32
  simp only [payloadHash, ofMem, PAYLOAD_HASH]
  rw [h₁, List.drop_left' (Memory.read_length _ _ _), h₂,
    List.take_left' (Memory.read_length _ _ _)]

theorem ofMem_congr {mem mem' : Memory}
    (h : mem'.read MANIFEST_BUFFER 96 = mem.read MANIFEST_BUFFER 96) : ofMem mem' = ofMem mem := by
  simp only [ofMem, h]

end Manifest

end SecureBoot.Bootrom
