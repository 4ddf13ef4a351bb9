import Mathlib.Data.Nat.NthRoot.Defs
import SecureBoot.Base.Words

/-!
# SHA-256 as FIPS 180-4 defines it

Padding to 512-bit blocks, the message schedule, and the fold of the
compression function over the blocks. The constants are computed from the
primes, as sections 4.2.2 and 5.3.3 of the standard define them, so no table
is shared with an implementation.
-/

namespace SecureBoot.Fips180

open Words

/-! ## Constants and functions -/

/-- The first sixty-four primes. -/
def primes : List Nat :=
  [2, 3, 5, 7, 11, 13, 17, 19, 23, 29, 31, 37, 41, 43, 47, 53, 59, 61, 67, 71, 73, 79, 83, 89,
   97, 101, 103, 107, 109, 113, 127, 131, 137, 139, 149, 151, 157, 163, 167, 173, 179, 181, 191,
   193, 197, 199, 211, 223, 227, 229, 233, 239, 241, 251, 257, 263, 269, 271, 277, 281, 283, 293,
   307, 311]

/-- The first 32 bits of the fractional part of the `e`-th root of `p`. -/
def rootFraction (e p : Nat) : Word := BitVec.ofNat 32 (Nat.nthRoot e (p * 2 ^ (32 * e)))

/-- Round constant `K_t`: cube root of the `t`-th prime. -/
def K (t : Nat) : Word := rootFraction 3 (primes.getD t 0)

def ch (x y z : Word) : Word := (x &&& y) ^^^ (~~~x &&& z)
def maj (x y z : Word) : Word := (x &&& y) ^^^ (x &&& z) ^^^ (y &&& z)
def bigSigma0 (x : Word) : Word := x.rotateRight 2 ^^^ x.rotateRight 13 ^^^ x.rotateRight 22
def bigSigma1 (x : Word) : Word := x.rotateRight 6 ^^^ x.rotateRight 11 ^^^ x.rotateRight 25
def smallSigma0 (x : Word) : Word := x.rotateRight 7 ^^^ x.rotateRight 18 ^^^ (x >>> 3)
def smallSigma1 (x : Word) : Word := x.rotateRight 17 ^^^ x.rotateRight 19 ^^^ (x >>> 10)

/-- The eight chaining words, and the eight working variables. -/
structure Chain where
  a : Word
  b : Word
  c : Word
  d : Word
  e : Word
  f : Word
  g : Word
  h : Word
deriving DecidableEq, Repr

/-- The initial hash value: square roots of the first eight primes. -/
def H0 : Chain :=
  ⟨rootFraction 2 2, rootFraction 2 3, rootFraction 2 5, rootFraction 2 7,
   rootFraction 2 11, rootFraction 2 13, rootFraction 2 17, rootFraction 2 19⟩

/-! ## Compression -/

/-- A block as big-endian words. -/
def words : List Byte → List Word
  | b0 :: b1 :: b2 :: b3 :: rest => beWord b0 b1 b2 b3 :: words rest
  | _ => []

/-- One step of the schedule recurrence, `16 ≤ t`. -/
def expand (W : List Word) (t : Nat) : List Word :=
  W ++ [smallSigma1 (W.getD (t - 2) 0) + W.getD (t - 7) 0 + smallSigma0 (W.getD (t - 15) 0) +
    W.getD (t - 16) 0]

/-- The message schedule `W_0 … W_63`. -/
def schedule (M : List Word) : List Word := (List.range' 16 48).foldl expand M

/-- One round on the working variables. -/
def round (W : List Word) (s : Chain) (t : Nat) : Chain :=
  let t1 := s.h + bigSigma1 s.e + ch s.e s.f s.g + K t + W.getD t 0
  let t2 := bigSigma0 s.a + maj s.a s.b s.c
  ⟨t1 + t2, s.a, s.b, s.c, s.d + t1, s.e, s.f, s.g⟩

def Chain.add (H s : Chain) : Chain :=
  ⟨H.a + s.a, H.b + s.b, H.c + s.c, H.d + s.d, H.e + s.e, H.f + s.f, H.g + s.g, H.h + s.h⟩

/-- The compression function on one 64-byte block. -/
def compress (H : Chain) (block : List Byte) : Chain :=
  H.add ((List.range 64).foldl (round (schedule (words block))) H)

/-! ## Padding and the hash -/

/-- The least number of zero bytes that completes a block. -/
def paddingZeros (n : Nat) : Nat := (119 - n % 64) % 64

/-- The message length in bits, as a 64-bit big-endian integer. -/
def lengthBytes (n : Nat) : List Byte :=
  (List.range 8).map fun i => byteAt (BitVec.ofNat 64 (8 * n)) (7 - i)

def pad (msg : List Byte) : List Byte :=
  msg ++ [0x80] ++ List.replicate (paddingZeros msg.length) 0 ++ lengthBytes msg.length

/-- Fold the compression function over the first `n` blocks. -/
def foldBlocks : Nat → Chain → List Byte → Chain
  | 0, H, _ => H
  | n + 1, H, bytes => foldBlocks n (compress H (bytes.take 64)) (bytes.drop 64)

def wordBytes (x : Word) : List Byte := [byteAt x 3, byteAt x 2, byteAt x 1, byteAt x 0]

def Chain.bytes (H : Chain) : List Byte :=
  wordBytes H.a ++ wordBytes H.b ++ wordBytes H.c ++ wordBytes H.d ++
    wordBytes H.e ++ wordBytes H.f ++ wordBytes H.g ++ wordBytes H.h

/-- The SHA-256 digest of a byte string. -/
def sha256 (msg : List Byte) : List Byte :=
  (foldBlocks ((pad msg).length / 64) H0 (pad msg)).bytes

/-! ## Shape of the padded message -/

@[simp] theorem lengthBytes_length (n : Nat) : (lengthBytes n).length = 8 := by
  simp [lengthBytes]

theorem pad_length (msg : List Byte) :
    (pad msg).length = msg.length + paddingZeros msg.length + 9 := by
  simp [pad]
  omega

@[simp] theorem sha256_length (msg : List Byte) : (sha256 msg).length = 32 := by
  simp [sha256, Chain.bytes, wordBytes]

/-! ## Folding over a prefix -/

theorem foldBlocks_append (n : Nat) (H : Chain) (bytes rest : List Byte)
    (hn : 64 * n ≤ bytes.length) :
    foldBlocks n H (bytes ++ rest) = foldBlocks n H bytes := by
  induction n generalizing H bytes with
  | zero => rfl
  | succ n ih =>
      have ht : (bytes ++ rest).take 64 = bytes.take 64 := by
        rw [List.take_append_of_le_length (by omega)]
      have hd : (bytes ++ rest).drop 64 = bytes.drop 64 ++ rest := by
        rw [List.drop_append_of_le_length (by omega)]
      simp only [foldBlocks, ht, hd]
      exact ih _ _ (by rw [List.length_drop]; omega)

theorem foldBlocks_add (m n : Nat) (H : Chain) (bytes : List Byte) :
    foldBlocks (m + n) H bytes = foldBlocks n (foldBlocks m H bytes) (bytes.drop (64 * m)) := by
  induction m generalizing H bytes with
  | zero => simp [foldBlocks]
  | succ m ih =>
      rw [Nat.succ_add, foldBlocks, ih]
      simp only [foldBlocks, List.drop_drop, Nat.mul_succ, Nat.add_comm]

/-- One more block after a prefix of whole blocks. -/
theorem foldBlocks_succ (n : Nat) (H : Chain) (bytes block : List Byte)
    (hb : bytes.length = 64 * n) (hblock : block.length = 64) :
    foldBlocks (n + 1) H (bytes ++ block) = compress (foldBlocks n H bytes) block := by
  have hd : (bytes ++ block).drop (64 * n) = block := by
    rw [← hb]
    simp
  rw [foldBlocks_add, hd, foldBlocks_append n H bytes block (by omega)]
  simp [foldBlocks, ← hblock]

/-- The whole blocks of a message do not depend on its tail. -/
theorem foldBlocks_take (H : Chain) (msg : List Byte) :
    foldBlocks (msg.length / 64) H (msg.take (64 * (msg.length / 64))) =
      foldBlocks (msg.length / 64) H msg := by
  have h := foldBlocks_append (msg.length / 64) H (msg.take (64 * (msg.length / 64)))
    (msg.drop (64 * (msg.length / 64))) (by rw [List.length_take]; omega)
  rwa [List.take_append_drop, eq_comm] at h

/-! ## The final blocks -/

theorem pad_eq (msg : List Byte) :
    pad msg = msg.take (64 * (msg.length / 64)) ++ (msg.drop (64 * (msg.length / 64)) ++ [0x80] ++
      List.replicate (paddingZeros msg.length) 0 ++ lengthBytes msg.length) := by
  simp only [← List.append_assoc, List.take_append_drop, pad]

/-- The length field fits the block the message ends in. -/
theorem sha256_oneBlock (msg block : List Byte) (hr : msg.length % 64 < 56)
    (hb : block = msg.drop (64 * (msg.length / 64)) ++ [0x80] ++
      List.replicate (55 - msg.length % 64) 0 ++ lengthBytes msg.length) :
    sha256 msg = (compress (foldBlocks (msg.length / 64) H0 msg) block).bytes := by
  have hz : paddingZeros msg.length = 55 - msg.length % 64 := by
    unfold paddingZeros
    omega
  have hlen : (pad msg).length / 64 = msg.length / 64 + 1 := by
    rw [pad_length, hz]
    omega
  have hblock : block.length = 64 := by
    simp [hb]
    omega
  rw [sha256, hlen, pad_eq, hz, ← hb,
    foldBlocks_succ _ _ _ _ (by rw [List.length_take]; omega) hblock, foldBlocks_take]

/-- The marker and some zeros complete one block, the length field ends the next. -/
theorem sha256_twoBlocks (msg first last : List Byte) (hr : 56 ≤ msg.length % 64)
    (hfirst : first = msg.drop (64 * (msg.length / 64)) ++ [0x80] ++
      List.replicate (63 - msg.length % 64) 0)
    (hlast : last = List.replicate 56 0 ++ lengthBytes msg.length) :
    sha256 msg = (compress (compress (foldBlocks (msg.length / 64) H0 msg) first) last).bytes := by
  have hz : paddingZeros msg.length = 63 - msg.length % 64 + 56 := by
    unfold paddingZeros
    omega
  have hlen : (pad msg).length / 64 = msg.length / 64 + 1 + 1 := by
    rw [pad_length, hz]
    omega
  have hf : first.length = 64 := by
    simp [hfirst]
    omega
  have hl : last.length = 64 := by simp [hlast]
  have hpad : pad msg = msg.take (64 * (msg.length / 64)) ++ first ++ last := by
    rw [pad_eq, hz, hfirst, hlast, ← List.replicate_append_replicate]
    simp only [List.append_assoc]
  have htake : (msg.take (64 * (msg.length / 64))).length = 64 * (msg.length / 64) := by
    rw [List.length_take]
    omega
  rw [sha256, hlen, hpad, foldBlocks_succ _ _ _ _ (by simp only [List.length_append]; omega) hl,
    foldBlocks_succ _ _ _ _ htake hf, foldBlocks_take]

/-- The last block that is compressed. -/
def lastBlock (msg : List Byte) : List Byte := (pad msg).drop ((pad msg).length - 64)

theorem lastBlock_oneBlock (msg : List Byte) (hr : msg.length % 64 < 56) :
    lastBlock msg = msg.drop (64 * (msg.length / 64)) ++ [0x80] ++
      List.replicate (55 - msg.length % 64) 0 ++ lengthBytes msg.length := by
  have hz : paddingZeros msg.length = 55 - msg.length % 64 := by
    unfold paddingZeros
    omega
  have hfront : (msg.take (64 * (msg.length / 64))).length = (pad msg).length - 64 := by
    rw [List.length_take, pad_length, hz]
    omega
  rw [lastBlock, ← hfront, pad_eq, List.drop_left, hz]

theorem lastBlock_twoBlocks (msg : List Byte) (hr : 56 ≤ msg.length % 64) :
    lastBlock msg = List.replicate 56 0 ++ lengthBytes msg.length := by
  have hz : paddingZeros msg.length = 63 - msg.length % 64 + 56 := by
    unfold paddingZeros
    omega
  have hpad : pad msg = (msg ++ [0x80] ++ List.replicate (63 - msg.length % 64) 0) ++
      (List.replicate 56 0 ++ lengthBytes msg.length) := by
    rw [pad, hz, ← List.replicate_append_replicate]
    simp only [List.append_assoc]
  have hfront : (msg ++ [0x80] ++ List.replicate (63 - msg.length % 64) (0 : Byte)).length =
      (pad msg).length - 64 := by
    rw [pad_length, hz]
    simp
    omega
  rw [lastBlock, ← hfront, hpad, List.drop_left]

/-- For messages of one length the last block shows the bytes behind the whole blocks, if it
shows any. -/
theorem lastBlock_eq_iff {msg msg' : List Byte} (h : msg.length = msg'.length) :
    lastBlock msg = lastBlock msg' ↔ (msg.length % 64 < 56 →
      msg.drop (64 * (msg.length / 64)) = msg'.drop (64 * (msg.length / 64))) := by
  by_cases hr : msg.length % 64 < 56
  · rw [lastBlock_oneBlock msg hr, lastBlock_oneBlock msg' (by rwa [← h]), ← h]
    simp [hr]
  · rw [lastBlock_twoBlocks msg (by omega), lastBlock_twoBlocks msg' (by omega), ← h]
    simp [hr]

example : sha256 [0x61, 0x62, 0x63] =
    [0xba, 0x78, 0x16, 0xbf, 0x8f, 0x01, 0xcf, 0xea, 0x41, 0x41, 0x40, 0xde, 0x5d, 0xae, 0x22,
     0x23, 0xb0, 0x03, 0x61, 0xa3, 0x96, 0x17, 0x7a, 0x9c, 0xb4, 0x10, 0xff, 0x61, 0xf2, 0x00,
     0x15, 0xad] := by decide +kernel

end SecureBoot.Fips180
