import SecureBoot.Bootrom.Transfers

/-!
# OTP words and Stage 1

The words that the generator packs from the hash file, read back by BootROM, and
the comparison of that hash with the one of the public key.
-/

namespace SecureBoot.Bootrom

open Words

variable {σ : Type} (soc : Soc σ)

/-- In recovery from Stage 1. -/
def keyRefused (mem : Memory) (s : Machine (Devices σ)) : Machine (Devices σ) :=
  { s with
    mem := mem
    dev := { s.dev with status := s.dev.status ||| SR_PUBLIC_KEY }
    mtvec := MRET_TRAP_EXIT
    mepc := RECOVERY_ENTRY
    a0 := soc.hartid
    a1 := 0 }

/-- The words on the bus, the hash read back from them, the verdict on the key; of the memory
only `Changed` may change. -/
structure KeyCheck (Changed : Nat → Prop) (s : Machine (Devices σ)) : Prop where
  words : ∀ k < 8, readRegister soc.platform (OTP_BASE + 4 * k) s =
    .ok (BitVec.ofNat 32
      (Otp.packed (((soc.otpHash.toList.drop (4 * k)).take 4).map Otp.unsigned))) s
  readback : ∀ output, soc.platform.RamRange output 32 → readOtpHash soc.platform output s =
    .ok () { s with mem := s.mem.write output soc.otpHash.toList }
  verdict : ∃ mem, Memory.ChangedOnly Changed s.mem mem ∧ checkPublicKey soc.platform s =
    if Fips180.sha256 (s.mem.read PUBLIC_KEY_BUFFER 32) = soc.otpHash.toList then
      .ok () { s with mem := mem }
    else .error .recovery (keyRefused soc mem s)

/-- Four bytes of the hash file, packed. -/
theorem packed_group (bs : List Byte) (word : Word) (h : leBytes word = bs) :
    BitVec.ofNat 32 (Otp.packed (bs.map Otp.unsigned)) = word := by
  subst h
  rw [← Otp.packWord_unsigned]
  exact (Otp.packWord_eq _ _ _ _).trans (leWord_byteAt word)

/-- The packer, the unpacker and the comparison agree on every hash file and every key. -/
theorem checkPublicKey_agrees (s : Machine (Devices σ)) : KeyCheck soc KeyScratch s := by
  refine ⟨fun k hk => ?_, fun output hram => readOtpHash_eq soc output s hram, ?_⟩
  · rcases readOtpWord_eq soc k s hk with ⟨word, hread, hbytes⟩
    rw [packed_group _ word hbytes, hread]
  · exact checkPublicKey_eq soc s

/-! ## The object of the hash -/

/-- The two hash buffers of Stage 1. -/
def KeyBuffers (x : Nat) : Prop := Within PUBLIC_KEY_HASH 32 x ∨ Within OTP_HASH_BUFFER 32 x

theorem lastBlock_marker (msg : List Byte) (hlen : msg.length = 32) :
    (Fips180.lastBlock msg).getD 32 0 = 0x80 := by
  rw [Fips180.lastBlock_oneBlock msg (by omega), hlen, List.drop_zero]
  simp [List.getD_eq_getElem?_getD, hlen]

theorem ctxImage_buffer (ctx : Sha256.Sha256Ctx) (i : Nat) (hi : i < 64) :
    (ctxImage ctx).getD (40 + i) 0 = ctx.buffer.toList.getD i 0 := by
  have hfront : (ctx.state.toList.flatMap leBytes ++
      (List.range 8).map (byteAt ctx.bitLen)).length = 40 := by
    simp only [List.length_append, flatMap_leBytes_length, Vector.length_toList, List.length_map,
      List.length_range]
  have hbuffer : ctx.buffer.toList.length = 64 := by simp
  rw [ctxImage, List.getD_eq_getElem?_getD, List.getD_eq_getElem?_getD,
    List.getElem?_append_left (by rw [List.length_append, hfront, hbuffer]; omega),
    List.getElem?_append_right (by rw [hfront]; omega), hfront, Nat.add_sub_cancel_left]

/-- The padding of a 32-byte message starts in the middle of the block buffer. -/
theorem HashLeft.marker {mem : Memory} {msg : List Byte} (h : HashLeft mem msg)
    (hlen : msg.length = 32) : mem (CTX_BASE + 72) = 0x80 := by
  rcases h with ⟨ctx, hspent, hread⟩
  rw [← Memory.read_getD mem CTX_BASE 112 72 (by omega), hread,
    ctxImage_buffer ctx 32 (by omega), hspent.buffer, lastBlock_marker msg hlen]

theorem checkPublicKey_buffers : ¬ KeyCheck blankSoc KeyBuffers blankReset := by
  intro h
  rcases h.verdict with ⟨mem, hmem, heq⟩
  rcases checkPublicKey_left blankSoc blankReset with ⟨mem', hleft, _, heq'⟩
  have hmarker := hleft.marker (Memory.read_length _ _ _)
  have hout : ¬ KeyBuffers (CTX_BASE + 72) := by
    unfold KeyBuffers
    decide
  have hsame : mem = mem' := by
    rw [heq] at heq'
    split at heq'
    · injection heq' with _ hstate
      exact congrArg Machine.mem hstate
    · injection heq' with _ hstate
      exact congrArg Machine.mem hstate
  rw [← hsame, hmem (CTX_BASE + 72) hout] at hmarker
  exact absurd hmarker (by decide)

end SecureBoot.Bootrom
