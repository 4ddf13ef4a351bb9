import SecureBoot.Base.Words

/-!
# The register-only peripherals

The rollback counter with its strictly-greater write rule, and the OTP hash as
eight little-endian words. The boot status register is a plain 32-bit word.
-/

namespace SecureBoot

open Words

namespace RollbackCounter

/-- `when (valid && (data > version)) { version := data }` -/
def write (version data : DWord) : DWord := if version < data then data else version

theorem write_toNat (version data : DWord) :
    (write version data).toNat = max version.toNat data.toNat := by
  unfold write
  by_cases h : version < data
  · rw [if_pos h]
    rw [BitVec.lt_def] at h
    omega
  · rw [if_neg h]
    rw [BitVec.lt_def] at h
    omega

/-- No write moves the counter back. -/
theorem le_write (version data : DWord) : version ≤ write version data := by
  rw [BitVec.le_def, write_toNat]
  omega

theorem write_of_lt {version data : DWord} (h : version < data) : write version data = data :=
  if_pos h

theorem write_of_le {version data : DWord} (h : data ≤ version) :
    write version data = version := by
  refine if_neg ?_
  rw [BitVec.lt_def]
  rw [BitVec.le_def] at h
  omega

end RollbackCounter

namespace Otp

/-- One group of four hash bytes, folded as the Scala code does. -/
def packWord (group : List Byte) : Nat :=
  group.zipIdx.foldl (fun acc bi => acc ||| (bi.1.toNat <<< (bi.2 * 8))) 0

/-- `b & 0xff`: a JVM byte is signed, and promoted to `Int` before the mask. -/
def unsigned (b : Byte) : Nat := (b.signExtend 32 &&& 0xff).toNat

def grouped : List Byte → List (List Byte)
  | b0 :: b1 :: b2 :: b3 :: rest => [b0, b1, b2, b3] :: grouped rest
  | [] => []
  | rest => [rest]

def words (hashBytes : List Byte) : List Word :=
  (grouped hashBytes).map fun group => BitVec.ofNat 32 (packWord group)

/-- The fold over the values. -/
def packed (group : List Nat) : Nat :=
  group.zipIdx.foldl (fun acc bi => acc ||| (bi.1 <<< (bi.2 * 8))) 0

/-- The window beyond the populated words reads zero. -/
def read (hashBytes : List Byte) (offset : Nat) : Word :=
  if offset % 4 = 0 then (words hashBytes).getD (offset / 4) 0 else 0

theorem unsigned_eq (b : Byte) : unsigned b = b.toNat := by
  have h : ∀ b : Byte, b.signExtend 32 &&& 0xff = b.setWidth 32 := by decide +kernel
  rw [unsigned, h, BitVec.toNat_setWidth]
  exact Nat.mod_eq_of_lt (Nat.lt_trans b.isLt (by decide))

/-- The sign of a byte does not reach the word. -/
theorem packWord_unsigned (group : List Byte) : packWord group = packed (group.map unsigned) := by
  rw [packed, List.zipIdx_map, List.foldl_map, packWord]
  congr 1
  funext acc bi
  simp only [Prod.map_fst, Prod.map_snd, unsigned_eq, id_eq]

theorem packWord_eq (b0 b1 b2 b3 : Byte) :
    BitVec.ofNat 32 (packWord [b0, b1, b2, b3]) = leWord b0 b1 b2 b3 := by
  apply BitVec.eq_of_toNat_eq
  have h0 := b0.isLt
  have h1 := b1.isLt
  have h2 := b2.isLt
  have h3 := b3.isLt
  have hor : ∀ x y k : Nat, x < 2 ^ k → x ||| (y <<< k) = y * 2 ^ k + x := by
    intro x y k hx
    rw [Nat.or_comm, ← Nat.shiftLeft_add_eq_or_of_lt hx, Nat.shiftLeft_eq]
  simp only [packWord, List.zipIdx_cons, List.zipIdx_nil, List.foldl_cons, List.foldl_nil,
    Nat.zero_mul, Nat.shiftLeft_zero, Nat.zero_or, Nat.zero_add, Nat.one_mul, Nat.reduceAdd,
    Nat.reduceMul]
  rw [hor _ _ 8 (by omega), hor _ _ 16 (by omega), hor _ _ 24 (by omega), leWord_toNat,
    BitVec.toNat_ofNat]
  omega

/-- The packer and the software's unpacker agree on every whole number of words. -/
theorem words_eq_leWords (hashBytes : List Byte) (h : hashBytes.length % 4 = 0) :
    words hashBytes = leWords hashBytes := by
  induction hashBytes using leWords.induct with
  | case1 b0 b1 b2 b3 rest ih =>
      simp only [List.length_cons] at h
      have hrest := ih (by omega)
      rw [words] at hrest
      rw [words, grouped, List.map_cons, hrest, packWord_eq, leWords]
  | case2 bs hshort =>
      rw [eq_nil_of_incomplete h hshort]
      rfl

end Otp

end SecureBoot
