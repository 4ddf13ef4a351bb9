import SecureBoot.Bootrom.Manifest
import SecureBoot.Bootrom.Frame
import SecureBoot.Bootrom.Rollback

/-!
# The stages on the chip

Each stage as an equation: the state it returns with when its check passes,
and the recovery state when it does not. Stages 0 to 2 and everything after
the payload is in memory do not use the SPI port, so nothing is assumed of it.
-/

namespace SecureBoot.Bootrom

open Words Exec

variable {σ : Type} (soc : Soc σ)

/-! ## Stage 0 -/

theorem checkManifestHeader_accepts (s : Machine (Devices σ))
    (h : (Manifest.ofMem s.mem).HeaderOk) :
    checkManifestHeader soc.platform MANIFEST_BUFFER s = .ok () s := by
  obtain ⟨hmagic, hversion⟩ := h
  rw [Manifest.magic, Manifest.ofMem_word _ _ (by decide)] at hmagic
  rw [Manifest.ofMem_headerVersion] at hversion
  rw [checkManifestHeader, bind_of_ok (loadWord_ram _ _ s (soc.bufferRam _ _)),
    bind_of_ok (recoverIf_false soc.platform SR_MANIFEST_HEADER s (by simp [hmagic])),
    bind_of_ok (loadHalf_ram _ _ s (soc.bufferRam _ _))]
  exact recoverIf_false soc.platform SR_MANIFEST_HEADER s (by simp [hversion])

theorem checkManifestHeader_refuses (s : Machine (Devices σ))
    (h : ¬ (Manifest.ofMem s.mem).HeaderOk) :
    checkManifestHeader soc.platform MANIFEST_BUFFER s =
      .error .recovery (recoveryState soc.platform SR_MANIFEST_HEADER s) := by
  rw [Manifest.HeaderOk, Manifest.magic, Manifest.ofMem_word _ _ (by decide),
    Manifest.ofMem_headerVersion] at h
  rw [checkManifestHeader, bind_of_ok (loadWord_ram _ _ s (soc.bufferRam _ _))]
  by_cases hmagic : s.mem.word (MANIFEST_BUFFER + MAGIC) = MANIFEST_MAGIC
  · have hversion : s.mem.half (MANIFEST_BUFFER + HEADER_VERSION) ≠ MANIFEST_HEADER_VERSION :=
      fun hv => h ⟨hmagic, hv⟩
    rw [bind_of_ok (recoverIf_false soc.platform SR_MANIFEST_HEADER s (by simp [hmagic])),
      bind_of_ok (loadHalf_ram _ _ s (soc.bufferRam _ _))]
    exact recoverIf_true soc.platform SR_MANIFEST_HEADER s (by simp [hversion])
  · exact bind_of_error (recoverIf_true soc.platform SR_MANIFEST_HEADER s (by simp [hmagic])) _

/-! ## Stage 1 -/

/-- What Stage 1 may write: its two hash buffers and the frames of the hash. -/
def KeyScratch (x : Nat) : Prop :=
  Within PUBLIC_KEY_HASH 32 x ∨ Within OTP_HASH_BUFFER 32 x ∨ inFrame x = true

theorem keyScratch_iff (x : Nat) :
    KeyScratch x ↔ (0x88000300 ≤ x ∧ x < 0x88000320) ∨ (0x88000340 ≤ x ∧ x < 0x88000360) ∨
      (0x8800FDC0 ≤ x ∧ x < 0x8800FFE0) := by
  rw [KeyScratch, inFrame_iff]
  exact Iff.rfl

theorem readOtpWord_eq (k : Nat) (s : Machine (Devices σ)) (hk : k < 8) :
    ∃ word, readRegister soc.platform (OTP_BASE + 4 * k) s = .ok word s ∧
      leBytes word = (soc.otpHash.toList.drop (4 * k)).take 4 := by
  have hspi : ¬ inWindow SPI_BASE 0x1000 (OTP_BASE + 4 * k) = true := by
    rw [inWindow_iff]
    simp only [SPI_BASE, OTP_BASE]
    omega
  have hotp : inWindow OTP_BASE 0x40 (OTP_BASE + 4 * k) = true := by
    rw [inWindow_iff]
    omega
  have hread : soc.platform.read32 (OTP_BASE + 4 * k) s.dev =
      ((leWords soc.otpHash.toList).getD k 0, s.dev) := by
    show soc.read32 (OTP_BASE + 4 * k) s.dev = _
    rw [Soc.read32, if_neg hspi, if_pos hotp, Nat.add_sub_cancel_left, Otp.read,
      if_pos (by omega), Otp.words_eq_leWords _ (by simp), Nat.mul_div_cancel_left k (by omega)]
  refine ⟨(leWords soc.otpHash.toList).getD k 0, ?_, leBytes_leWords_getD _ _ (by simp; omega)⟩
  rw [readRegister, hread]

/-- The OTP words land in the buffer as the hash, byte for byte. -/
theorem readOtpWords_eq (output k n : Nat) (s : Machine (Devices σ)) (hn : k + n ≤ 8)
    (hram : soc.platform.RamRange (output + 4 * k) (4 * n)) :
    readOtpWords soc.platform output (4 * k) n s =
      .ok () { s with
        mem := s.mem.write (output + 4 * k) ((soc.otpHash.toList.drop (4 * k)).take (4 * n)) } := by
  induction n generalizing k s with
  | zero => simp [readOtpWords]
  | succ n ih =>
      obtain ⟨word, hread, hbytes⟩ := readOtpWord_eq soc k s (by omega)
      have hstore := storeBytes_ram soc.platform (output + 4 * k) (leBytes word) s
        (hram.mono (by omega) (by rw [leBytes_length]; omega))
      have hnext := ih (k + 1)
        { s with mem := s.mem.write (output + 4 * k) (leBytes word) } (by omega)
        (hram.mono (by omega) (by omega))
      have hsplit : (soc.otpHash.toList.drop (4 * k)).take (4 * (n + 1)) =
          leBytes word ++ (soc.otpHash.toList.drop (4 * (k + 1))).take (4 * n) := by
        rw [hbytes, show 4 * (n + 1) = 4 + 4 * n by omega, List.take_add, List.drop_drop]
        rfl
      rw [readOtpWords, bind_of_ok hread, bind_of_ok hstore, show 4 * k + 4 = 4 * (k + 1) by omega,
        hnext, hsplit, Memory.write_append, leBytes_length]
      rfl

theorem readOtpHash_eq (output : Nat) (s : Machine (Devices σ))
    (hram : soc.platform.RamRange output 32) :
    readOtpHash soc.platform output s =
      .ok () { s with mem := s.mem.write output soc.otpHash.toList } := by
  have h := readOtpWords_eq soc output 0 8 s (by omega) hram
  rwa [Nat.mul_zero, List.drop_zero, List.take_of_length_le (by simp)] at h

/-- Stage 1 compares the digest of the buffered key with the OTP hash. The object of that hash
stays on the stack. -/
theorem checkPublicKey_left (s : Machine (Devices σ)) :
    ∃ mem, HashLeft mem (s.mem.read PUBLIC_KEY_BUFFER 32) ∧
      Memory.ChangedOnly KeyScratch s.mem mem ∧
      checkPublicKey soc.platform s =
        if Fips180.sha256 (s.mem.read PUBLIC_KEY_BUFFER 32) = soc.otpHash.toList then
          .ok () { s with mem := mem }
        else .error .recovery (recoveryState soc.platform SR_PUBLIC_KEY { s with mem := mem }) := by
  obtain ⟨mem₁, ⟨ctx, hspent, hctx⟩, hhash, hmem₁⟩ := sha256Hash_left soc.platform
    PUBLIC_KEY_BUFFER 32 PUBLIC_KEY_HASH s (soc.bufferRam _ _) (soc.bufferRam _ _)
  have hmsg : messageAt soc.platform s PUBLIC_KEY_BUFFER 32 =
      s.mem.read PUBLIC_KEY_BUFFER 32 := by
    apply messageAt_of_outside
    intro x h₁ h₂
    have haddr := addresses
    rw [inFrame_iff]
    omega
  rw [hmsg] at hmem₁ hspent
  have hotp := readOtpHash_eq soc OTP_HASH_BUFFER { s with mem := mem₁ }
    (soc.bufferRam _ _)
  have hsame := sameBytes_ram soc.platform PUBLIC_KEY_HASH OTP_HASH_BUFFER 32
    { s with mem := mem₁.write OTP_HASH_BUFFER soc.otpHash.toList }
    (soc.bufferRam _ _) (soc.bufferRam _ _)
  have hdigest : mem₁.read PUBLIC_KEY_HASH 32 =
      Fips180.sha256 (s.mem.read PUBLIC_KEY_BUFFER 32) := by
    refine (hmem₁.read_eq ?_).trans
      (Memory.read_write_same_of_length _ _ _ _ (Fips180.sha256_length _))
    intro x h₁ h₂ hframe
    have haddr := addresses
    rw [inFrame_iff] at hframe
    omega
  have hleft : (mem₁.write OTP_HASH_BUFFER soc.otpHash.toList).read PUBLIC_KEY_HASH 32 =
      Fips180.sha256 (s.mem.read PUBLIC_KEY_BUFFER 32) := by
    rw [Memory.read_write_disjoint mem₁ PUBLIC_KEY_HASH OTP_HASH_BUFFER 32 _ (.inl (by decide)),
      hdigest]
  have hright : (mem₁.write OTP_HASH_BUFFER soc.otpHash.toList).read OTP_HASH_BUFFER 32 =
      soc.otpHash.toList := Memory.read_write_same_of_length _ _ _ _ (by simp)
  have hobject : (mem₁.write OTP_HASH_BUFFER soc.otpHash.toList).read CTX_BASE 112 =
      ctxImage ctx := by
    rw [Memory.read_write_disjoint mem₁ CTX_BASE OTP_HASH_BUFFER 112 _
      (.inr (by rw [Vector.length_toList]; decide)), hctx]
  refine ⟨mem₁.write OTP_HASH_BUFFER soc.otpHash.toList, ⟨ctx, hspent, hobject⟩, ?_, ?_⟩
  · refine ((Memory.write_changedOnly _ _ _ ?_).trans (hmem₁.mono ?_)).trans
      (Memory.write_changedOnly _ _ _ ?_)
    · intro x h₁ h₂
      rw [Fips180.sha256_length] at h₂
      exact .inl ⟨h₁, h₂⟩
    · exact fun x hx => .inr (.inr hx)
    · intro x h₁ h₂
      rw [Vector.length_toList] at h₂
      exact .inr (.inl ⟨h₁, h₂⟩)
  · rw [checkPublicKey, show PUBLIC_KEY_SIZE.toNat = 32 from rfl, bind_of_ok hhash,
      bind_of_ok hotp, show OTP_HASH_SIZE = 32 from rfl, bind_of_ok hsame, hleft, hright]
    by_cases heq : Fips180.sha256 (s.mem.read PUBLIC_KEY_BUFFER 32) = soc.otpHash.toList
    · rw [if_pos heq]
      exact recoverIf_false _ _ _ (by simp [heq])
    · rw [if_neg heq]
      exact recoverIf_true _ _ _ (by simp [heq])

theorem checkPublicKey_eq (s : Machine (Devices σ)) :
    ∃ mem, Memory.ChangedOnly KeyScratch s.mem mem ∧
      checkPublicKey soc.platform s =
        if Fips180.sha256 (s.mem.read PUBLIC_KEY_BUFFER 32) = soc.otpHash.toList then
          .ok () { s with mem := mem }
        else .error .recovery (recoveryState soc.platform SR_PUBLIC_KEY { s with mem := mem }) := by
  obtain ⟨mem, _, hmem, heq⟩ := checkPublicKey_left soc s
  exact ⟨mem, hmem, heq⟩

/-! ## Stage 2 -/

/-- The words of a buffer reach the block in order. -/
theorem ed25519WriteWords_sound (data n : Nat) (s : Machine (Devices σ)) (bs : List Byte)
    (hram : soc.platform.RamRange data (4 * n))
    (h : Ed25519.Sound soc.script s.dev.ed25519 bs) :
    ∃ v, ed25519WriteWords soc.platform data n s =
        .ok () { s with dev := { s.dev with ed25519 := v } } ∧
      Ed25519.Sound soc.script v (bs ++ s.mem.read data (4 * n)) := by
  induction n generalizing data s bs with
  | zero => exact ⟨s.dev.ed25519, rfl, by simpa using h⟩
  | succ n ih =>
      have hword := loadWord_ram soc.platform data s (hram.mono (by omega) (by omega))
      have haccept := h.acceptWord (s.mem.word data)
      rw [Memory.leBytes_word, ← Ed25519.step_data soc.script] at haccept
      obtain ⟨v, hv, hsound⟩ := ih (data + 4)
        { s with
          dev := { s.dev with
            ed25519 := Ed25519.step soc.script s.dev.ed25519 (.data (s.mem.word data)) } }
        _ (hram.mono (by omega) (by omega)) haccept
      refine ⟨v, ?_, ?_⟩
      · rw [ed25519WriteWords, bind_of_ok hword]
        exact hv
      · rw [show 4 * (n + 1) = 4 + 4 * n by omega, Memory.read_add, ← List.append_assoc]
        exact hsound

/-- The verdict is on the register at the first poll. -/
theorem pollVerdict_eq (s : Machine (Devices σ)) {ok : Bool}
    (h : s.dev.ed25519.status = if ok then 0x00000006 else 0x0000000A) :
    pollVerdict soc.platform 0 s =
      if ok then .ok () s
      else .error .recovery (recoveryState soc.platform SR_MANIFEST_SIGNATURE s) := by
  have hread : readRegister soc.platform ED25519_STATUS s = .ok s.dev.ed25519.status s := rfl
  rw [pollVerdict, bind_of_ok hread, h]
  cases ok with
  | true =>
      rw [if_neg (by decide), if_pos (by decide), if_pos (by decide), if_pos rfl, pure_apply]
  | false =>
      rw [if_pos (by decide), if_neg (by decide)]
      rfl

/-- The image the driver sends: manifest, signature, key. -/
def stagedFiles (mem : Memory) : Ed25519.Files :=
  ⟨mem.read MANIFEST_BUFFER 96, mem.read SIGNATURE_BUFFER 64, mem.read PUBLIC_KEY_BUFFER 32⟩

/-- Stage 2 hands the three buffers to the script and is its verdict, from any state of the
block. -/
theorem checkManifestSignature_delivers (s : Machine (Devices σ)) :
    ∃ v : Ed25519.Verifier, v.files = stagedFiles s.mem ∧
      v.buffer.toList = s.mem.read MANIFEST_BUFFER 96 ++ s.mem.read SIGNATURE_BUFFER 64 ++
        s.mem.read PUBLIC_KEY_BUFFER 32 ∧
      checkManifestSignature soc.platform s =
        if soc.script (stagedFiles s.mem) then
          .ok () { s with dev := { s.dev with ed25519 := v } }
        else .error .recovery (recoveryState soc.platform SR_MANIFEST_SIGNATURE
          { s with dev := { s.dev with ed25519 := v } }) := by
  have hclear : Ed25519.Sound soc.script
      (Ed25519.step soc.script s.dev.ed25519 (.cmd ED25519_CMD_CLEAR)) [] := by
    rw [Ed25519.step_clear _ _ _ (by decide)]
    exact .of_reset rfl rfl
  obtain ⟨v₁, hv₁, hs₁⟩ := ed25519WriteWords_sound soc MANIFEST_BUFFER 24
    { s with
      dev := { s.dev with
        ed25519 := Ed25519.step soc.script s.dev.ed25519 (.cmd ED25519_CMD_CLEAR) } }
    [] (soc.bufferRam _ _) hclear
  obtain ⟨v₂, hv₂, hs₂⟩ := ed25519WriteWords_sound soc SIGNATURE_BUFFER 16
    { s with dev := { s.dev with ed25519 := v₁ } } _
    (soc.bufferRam _ _) hs₁
  obtain ⟨v₃, hv₃, hs₃⟩ := ed25519WriteWords_sound soc PUBLIC_KEY_BUFFER 8
    { s with dev := { s.dev with ed25519 := v₂ } } _
    (soc.bufferRam _ _) hs₂
  obtain ⟨hbuffer, hdone⟩ := hs₃.delivers (by simp)
  rw [List.nil_append] at hbuffer hdone
  rw [Ed25519.Files.ofStream_append _ _ _ (Memory.read_length _ _ _)
    (Memory.read_length _ _ _) (Memory.read_length _ _ _)] at hdone
  refine ⟨Ed25519.step soc.script v₃ (.cmd ED25519_CMD_START), ?_, ?_, ?_⟩
  · exact congrArg Ed25519.Verifier.files hdone
  · exact (congrArg (fun v => v.buffer.toList) hdone).trans hbuffer
  · have hstart : writeRegister soc.platform ED25519_CMD ED25519_CMD_CLEAR s =
        .ok () { s with
          dev := { s.dev with
            ed25519 := Ed25519.step soc.script s.dev.ed25519 (.cmd ED25519_CMD_CLEAR) } } := rfl
    rw [checkManifestSignature, bind_of_ok hstart, ed25519WriteBytes,
      show MANIFEST_SIZE.toNat / 4 = 24 from rfl, bind_of_ok hv₁, ed25519WriteBytes,
      show SIGNATURE_SIZE.toNat / 4 = 16 from rfl, bind_of_ok hv₂, ed25519WriteBytes,
      show PUBLIC_KEY_SIZE.toNat / 4 = 8 from rfl, bind_of_ok hv₃]
    exact pollVerdict_eq soc { s with
      dev := { s.dev with ed25519 := Ed25519.step soc.script v₃ (.cmd ED25519_CMD_START) } }
      (congrArg Ed25519.Verifier.status hdone)

/-- Stage 2 is the script's verdict on the three buffers, from any state of the block. -/
theorem checkManifestSignature_eq (s : Machine (Devices σ)) :
    ∃ v, checkManifestSignature soc.platform s =
      if soc.script (stagedFiles s.mem) then
        .ok () { s with dev := { s.dev with ed25519 := v } }
      else .error .recovery (recoveryState soc.platform SR_MANIFEST_SIGNATURE
        { s with dev := { s.dev with ed25519 := v } }) := by
  obtain ⟨v, -, -, hv⟩ := checkManifestSignature_delivers soc s
  exact ⟨v, hv⟩

end SecureBoot.Bootrom
