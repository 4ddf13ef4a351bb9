import SecureBoot.Base.Words

/-!
# The streaming hash of `sha256.c`

`Sha256Ctx` is `sha256_ctx` field for field. The 64-byte buffer is written
through `putByte` only, which fails on an index outside the array: `none` is
the C program's undefined behaviour, never a modelling shortcut.
-/

namespace SecureBoot.Sha256

open Words

structure Sha256Ctx where
  state : Vector Word 8
  bitLen : DWord
  buffer : Vector Byte 64
  bufferLen : DWord
deriving DecidableEq, Repr

/-! ## Macros and constants -/

def rotr32 (x : Word) (n : Nat) : Word := (x >>> n) ||| (x <<< (32 - n))
def CH (x y z : Word) : Word := (x &&& y) ^^^ (~~~x &&& z)
def MAJ (x y z : Word) : Word := (x &&& y) ^^^ (x &&& z) ^^^ (y &&& z)
def BIG0 (x : Word) : Word := rotr32 x 2 ^^^ rotr32 x 13 ^^^ rotr32 x 22
def BIG1 (x : Word) : Word := rotr32 x 6 ^^^ rotr32 x 11 ^^^ rotr32 x 25
def SMALL0 (x : Word) : Word := rotr32 x 7 ^^^ rotr32 x 18 ^^^ (x >>> 3)
def SMALL1 (x : Word) : Word := rotr32 x 17 ^^^ rotr32 x 19 ^^^ (x >>> 10)

def sha256K : Vector Word 64 := #v[
  0x428a2f98, 0x71374491, 0xb5c0fbcf, 0xe9b5dba5, 0x3956c25b, 0x59f111f1, 0x923f82a4, 0xab1c5ed5,
  0xd807aa98, 0x12835b01, 0x243185be, 0x550c7dc3, 0x72be5d74, 0x80deb1fe, 0x9bdc06a7, 0xc19bf174,
  0xe49b69c1, 0xefbe4786, 0x0fc19dc6, 0x240ca1cc, 0x2de92c6f, 0x4a7484aa, 0x5cb0a9dc, 0x76f988da,
  0x983e5152, 0xa831c66d, 0xb00327c8, 0xbf597fc7, 0xc6e00bf3, 0xd5a79147, 0x06ca6351, 0x14292967,
  0x27b70a85, 0x2e1b2138, 0x4d2c6dfc, 0x53380d13, 0x650a7354, 0x766a0abb, 0x81c2c92e, 0x92722c85,
  0xa2bfe8a1, 0xa81a664b, 0xc24b8b70, 0xc76c51a3, 0xd192e819, 0xd6990624, 0xf40e3585, 0x106aa070,
  0x19a4c116, 0x1e376c08, 0x2748774c, 0x34b0bcb5, 0x391c0cb3, 0x4ed8aa4a, 0x5b9cca4f, 0x682e6ff3,
  0x748f82ee, 0x78a5636f, 0x84c87814, 0x8cc70208, 0x90befffa, 0xa4506ceb, 0xbef9a3f7, 0xc67178f2]

def loadBe32 (block : Vector Byte 64) (i : Nat) : Word :=
  (block[i]!.setWidth 32 <<< 24) ||| (block[i + 1]!.setWidth 32 <<< 16) |||
    (block[i + 2]!.setWidth 32 <<< 8) ||| block[i + 3]!.setWidth 32

def storeBe32 (value : Word) : List Byte :=
  [byteAt value 3, byteAt value 2, byteAt value 1, byteAt value 0]

/-! ## One block -/

/-- The first sixteen schedule words, straight from the block. -/
def loadSchedule (block : Vector Byte 64) (w : Vector Word 64) : Vector Word 64 :=
  (List.range 16).foldl (fun w i => w.set! i (loadBe32 block (i * 4))) w

def expandSchedule (w : Vector Word 64) : Vector Word 64 :=
  (List.range' 16 48).foldl
    (fun w i => w.set! i (SMALL1 w[i - 2]! + w[i - 7]! + SMALL0 w[i - 15]! + w[i - 16]!)) w

/-- The locals `a` to `h` of `sha256_block`. -/
structure Locals where
  a : Word
  b : Word
  c : Word
  d : Word
  e : Word
  f : Word
  g : Word
  h : Word

/-- The body of the mixing loop. -/
def mix (w : Vector Word 64) (v : Locals) (i : Nat) : Locals :=
  let t1 := v.h + BIG1 v.e + CH v.e v.f v.g + sha256K[i]! + w[i]!
  let t2 := BIG0 v.a + MAJ v.a v.b v.c
  { h := v.g, g := v.f, f := v.e, e := v.d + t1, d := v.c, c := v.b, b := v.a, a := t1 + t2 }

def sha256Block (ctx : Sha256Ctx) (block : Vector Byte 64) : Sha256Ctx :=
  let w := expandSchedule (loadSchedule block (Vector.replicate 64 0))
  let s := ctx.state
  let v := (List.range 64).foldl (mix w) ⟨s[0], s[1], s[2], s[3], s[4], s[5], s[6], s[7]⟩
  { ctx with
    state := #v[s[0] + v.a, s[1] + v.b, s[2] + v.c, s[3] + v.d,
      s[4] + v.e, s[5] + v.f, s[6] + v.g, s[7] + v.h] }

/-! ## The streaming interface -/

def sha256Init (ctx : Sha256Ctx) : Sha256Ctx :=
  { ctx with
    state := #v[0x6a09e667, 0xbb67ae85, 0x3c6ef372, 0xa54ff53a,
      0x510e527f, 0x9b05688c, 0x1f83d9ab, 0x5be0cd19]
    bitLen := 0
    bufferLen := 0 }

/-- `buffer[i] = b`; a store outside the array is undefined behaviour. -/
def putByte (buffer : Vector Byte 64) (i : Nat) (b : Byte) : Option (Vector Byte 64) :=
  if h : i < 64 then some (buffer.set i b) else none

/-- Consecutive stores from index `i` on. -/
def putBytes (buffer : Vector Byte 64) (i : Nat) : List Byte → Option (Vector Byte 64)
  | [] => some buffer
  | b :: bs => do
      let buffer ← putByte buffer i b
      putBytes buffer (i + 1) bs

/-- `size_t` arithmetic wraps, so a full buffer takes nothing and the round
only flushes it: every round consumes a byte or empties the buffer. -/
def sha256Update (ctx : Sha256Ctx) (data : List Byte) : Option Sha256Ctx :=
  if hd : data = [] then some ctx
  else do
    let space := (64 - ctx.bufferLen).toNat
    let take := min data.length space
    let buffer ← putBytes ctx.buffer ctx.bufferLen.toNat (data.take take)
    let ctx' := { ctx with buffer := buffer, bufferLen := ctx.bufferLen + BitVec.ofNat 64 take }
    if _hf : ctx'.bufferLen = 64 then
      let flushed := sha256Block ctx' ctx'.buffer
      sha256Update { flushed with bitLen := flushed.bitLen + 512, bufferLen := 0 } (data.drop take)
    else
      sha256Update ctx' (data.drop take)
termination_by (data.length, if ctx.bufferLen = 64 then 1 else 0)
decreasing_by
  all_goals
    have hpos : 0 < data.length := List.length_pos_iff.mpr hd
    by_cases ht : (64 - ctx.bufferLen).toNat = 0
    · have hb : ctx.bufferLen = 64 := by bv_omega
      simp_all [Prod.lex_def, ctx', take, space]
    · simp only [Prod.lex_def, List.length_drop]
      left
      omega

/-- `while (i < hi) buffer[i++] = 0;` -/
def padZeros (buffer : Vector Byte 64) (i hi : Nat) : Option (Vector Byte 64) :=
  putBytes buffer i (List.replicate (hi - i) 0)

/-- `if (i > 56)`: the length does not fit, so this block is closed with zeros. -/
def closeBlock (ctx : Sha256Ctx) (buffer : Vector Byte 64) (i : Nat) :
    Option (Sha256Ctx × Vector Byte 64 × Nat) :=
  if 56 < i then do
    let buffer ← padZeros buffer i 64
    pure (sha256Block ctx buffer, buffer, 0)
  else pure (ctx, buffer, i)

/-- The context `sha256_final` leaves behind, and the digest. -/
def sha256Final (ctx : Sha256Ctx) : Option (Sha256Ctx × List Byte) := do
  let totalBits := ctx.bitLen + ctx.bufferLen * 8
  let buffer ← putByte ctx.buffer ctx.bufferLen.toNat 0x80
  let (ctx, buffer, i) ← closeBlock ctx buffer (ctx.bufferLen.toNat + 1)
  let buffer ← padZeros buffer i 56
  let buffer ← putBytes buffer 56 ((List.range 8).map fun j => byteAt totalBits (7 - j))
  let ctx := sha256Block { ctx with buffer := buffer } buffer
  pure (ctx, ctx.state.toList.flatMap storeBe32)

/-- The one-shot helper; `ctx` is its uninitialised automatic object. -/
def sha256Hash (ctx : Sha256Ctx) (data : List Byte) : Option (Sha256Ctx × List Byte) := do
  let ctx ← sha256Update (sha256Init ctx) data
  sha256Final ctx

end SecureBoot.Sha256
