import SecureBoot.Base.Fips180
import SecureBoot.Hardware.HostFiles

/-!
# From a kernel to `flash_image.hex`

`key_generator.py`, `manifest_generators.py`, `sign_firmware.py` and
`flash_image_to_hex.py`, with `struct.pack` as far as they use it, and the
`$readmemh` of `FlashStorage` that reads the result. PyNaCl is a parameter.
-/

namespace SecureBoot.Tools

open Words

/-! ## `struct.pack` -/

/-- The codes of a format that begins with `<`. -/
inductive Code where
  | I
  | H
  | s (count : Nat)
deriving DecidableEq, Repr

inductive Value where
  | int (n : Nat)
  | bytes (bs : List Byte)
deriving DecidableEq, Repr

/-- A number out of range or a value of the wrong type is a `struct.error`; a byte string is cut
or filled with zeros. -/
def packItem : Code → Value → Option (List Byte)
  | .I, .int n => if n < 2 ^ 32 then some (leBytes (BitVec.ofNat 32 n)) else none
  | .H, .int n =>
      if n < 2 ^ 16 then some ((List.range 2).map (byteAt (BitVec.ofNat 16 n))) else none
  | .s count, .bytes bs => some (bs.take count ++ List.replicate (count - bs.length) 0)
  | _, _ => none

def pack : List Code → List Value → Option (List Byte)
  | [], [] => some []
  | code :: codes, value :: values => do
      let item ← packItem code value
      let items ← pack codes values
      pure (item ++ items)
  | _, _ => none

theorem packItem_I {n : Nat} (h : n < 2 ^ 32) :
    packItem .I (.int n) = some (leBytes (BitVec.ofNat 32 n)) := if_pos h

theorem packItem_s {count : Nat} {bs : List Byte} (h : bs.length = count) :
    packItem (.s count) (.bytes bs) = some bs := by
  rw [packItem, List.take_of_length_le (by omega), h, Nat.sub_self]
  simp

/-! ## `manifest_generators.py` -/

/-- `<IHHIIIIII32s32s` -/
def structFormat : List Code := [.I, .H, .H, .I, .I, .I, .I, .I, .I, .s 32, .s 32]

/-- `manifest.bin`, with the version as the script's constant `VERSION`. -/
def manifestBin (version : Nat) (kernelData : List Byte) : Option (List Byte) :=
  pack structFormat
    [.int 0x54424F53, .int 1, .int 0, .int version, .int kernelData.length, .int 0x80000000,
      .int 0x80000000, .int 0, .int 0, .bytes (Fips180.sha256 kernelData),
      .bytes (List.replicate 32 0)]

/-! ## `key_generator.py` and `sign_firmware.py` -/

/-- `nacl.signing`, with what it promises. -/
structure NaCl where
  SigningKey : Type
  /-- `signing_key.verify_key.encode()` -/
  verifyKey : SigningKey → List Byte
  /-- `signing_key.sign(message).signature` -/
  sign : SigningKey → (message : List Byte) → List Byte
  verify : Verify
  verifyKey_length : ∀ sk, (verifyKey sk).length = 32
  sign_length : ∀ sk message, (sign sk message).length = 64
  verify_sign : ∀ sk message, verify (verifyKey sk) message (sign sk message) = true

variable (nacl : NaCl) (sk : nacl.SigningKey)

def publicKeyBin : List Byte := nacl.verifyKey sk

def pubkeyHashBin : List Byte := Fips180.sha256 (nacl.verifyKey sk)

/-- `flash_image.bin`, unless the assertion on the manifest's size fails. -/
def flashImageBin (manifestBytes publicKeyBytes kernelBytes : List Byte) : Option (List Byte) :=
  if manifestBytes.length = 96 then
    some (manifestBytes ++ nacl.sign sk manifestBytes ++ publicKeyBytes ++ kernelBytes)
  else none

/-! ## `flash_image_to_hex.py` -/

def hexDigit (n : Nat) : Char := "0123456789abcdef".toList.getD n '0'

/-- `f"{byte:02x}\n"` -/
def hexLine (byte : Byte) : List Char :=
  [hexDigit (byte.toNat / 16), hexDigit (byte.toNat % 16), '\n']

def flashImageHex (data : List Byte) : List Char := data.flatMap hexLine

/-- The four scripts one after the other. -/
def buildFlash (version : Nat) (kernel : List Byte) : Option (List Char) := do
  let manifest ← manifestBin version kernel
  let image ← flashImageBin nacl sk manifest (publicKeyBin nacl sk) kernel
  pure (flashImageHex image)

/-! ## `$readmemh` -/

def hexValue (c : Char) : Nat :=
  if '0' ≤ c ∧ c ≤ '9' then c.toNat - '0'.toNat
  else if 'a' ≤ c ∧ c ≤ 'f' then c.toNat - 'a'.toNat + 10
  else c.toNat - 'A'.toNat + 10

def linesFrom (line : List Char) : List Char → List (List Char)
  | [] => if line = [] then [] else [line]
  | c :: cs => if c = '\n' then line :: linesFrom [] cs else linesFrom (line ++ [c]) cs

def hexNumber (line : List Char) : Nat := line.foldl (fun n c => 16 * n + hexValue c) 0

/-- Line `i` is the byte at address `i`; behind the last line the memory keeps what it held. -/
def readmemh (text : List Char) (mem : Nat → Byte) (a : Nat) : Byte :=
  ((linesFrom [] text).map fun line => BitVec.ofNat 8 (hexNumber line)).getD a (mem a)

theorem hexDigit_ne_newline : ∀ n < 16, hexDigit n ≠ '\n' := by decide

theorem hexValue_hexDigit : ∀ n < 16, hexValue (hexDigit n) = n := by decide

theorem linesFrom_flashImageHex (data : List Byte) :
    linesFrom [] (flashImageHex data) =
      data.map fun b => [hexDigit (b.toNat / 16), hexDigit (b.toNat % 16)] := by
  induction data with
  | nil => rfl
  | cons b data ih =>
      have hb := b.isLt
      have hhigh := hexDigit_ne_newline (b.toNat / 16) (by omega)
      have hlow := hexDigit_ne_newline (b.toNat % 16) (by omega)
      rw [flashImageHex] at ih
      simp only [flashImageHex, List.flatMap_cons, hexLine, List.cons_append, List.nil_append,
        linesFrom, hhigh, hlow, if_false, if_true, ih, List.map_cons]

theorem hexNumber_byte (b : Byte) :
    BitVec.ofNat 8 (hexNumber [hexDigit (b.toNat / 16), hexDigit (b.toNat % 16)]) = b := by
  have hb := b.isLt
  have hnumber : hexNumber [hexDigit (b.toNat / 16), hexDigit (b.toNat % 16)] = b.toNat := by
    simp only [hexNumber, List.foldl_cons, List.foldl_nil]
    rw [hexValue_hexDigit _ (by omega), hexValue_hexDigit _ (by omega)]
    omega
  rw [hnumber, BitVec.ofNat_toNat, BitVec.setWidth_eq]

/-- The flash starts with the bytes of the image. -/
theorem readmemh_flashImageHex (data : List Byte) (mem : Nat → Byte) (a : Nat) :
    readmemh (flashImageHex data) mem a = data.getD a (mem a) := by
  rw [readmemh, linesFrom_flashImageHex, List.map_map]
  have hbytes : data.map ((fun line => BitVec.ofNat 8 (hexNumber line)) ∘ fun b =>
      [hexDigit (b.toNat / 16), hexDigit (b.toNat % 16)]) = data :=
    (List.map_congr_left fun b _ => hexNumber_byte b).trans (List.map_id data)
  rw [hbytes]

end SecureBoot.Tools
