import SecureBoot.Bootrom.Outcome

/-!
# What a program leaves alone

The status register and memory, as one relation between the states before and
after that every function of `bootrom.c` keeps. The peripherals may do
anything, except that only a write to the status register changes it.
-/

namespace SecureBoot.Bootrom

open Words Exec

variable {δ α β : Type} (p : Platform δ)

/-! ## The status register -/

/-- `status` reads the register out of the device state. Byte accesses do not reach it: the router
writes a 32-bit field only as a whole. -/
structure StatusRegister (status : δ → Word) : Prop where
  value : ∀ d, (p.read32 BOOT_STATUS_REG d).1 = status d
  write : ∀ value d, status (p.write32 BOOT_STATUS_REG value d) = value
  read32 : ∀ a d, status (p.read32 a d).2 = status d
  write32 : ∀ a value d, a ≠ BOOT_STATUS_REG → status (p.write32 a value d) = status d
  read8 : ∀ a d, status (p.read8 a d).2 = status d
  write8 : ∀ a b d, status (p.write8 a b d) = status d
  read64 : ∀ d, status (p.read64 ROLLBACK_COUNTER_BASE d).2 = status d
  write64 : ∀ value d, status (p.write64 ROLLBACK_COUNTER_BASE value d) = status d

/-- The register of the modelled system, if the router leaves it alone on byte accesses. -/
theorem soc_statusRegister {σ : Type} (soc : Soc σ)
    (hread : ∀ a d, (soc.read8 a d).2.status = d.status)
    (hwrite : ∀ a b d, (soc.write8 a b d).status = d.status) :
    StatusRegister soc.platform Devices.status where
  value d := rfl
  write value d := rfl
  read32 a d := by
    show (soc.read32 a d).2.status = d.status
    unfold Soc.read32
    repeat' split
    all_goals rfl
  write32 a value d ha := by
    show (soc.write32 a value d).status = d.status
    unfold Soc.write32
    rw [if_neg ha]
    repeat' split
    all_goals rfl
  read8 := hread
  write8 := hwrite
  read64 d := rfl
  write64 value d := rfl

/-! ## Programs that set one bit -/

variable {p} {status : δ → Word} {bit : Word} {S : Nat → Prop}

/-- A return leaves the register alone, an exit into recovery has set `bit`; memory changes in `S`
only. -/
def Marks (status : δ → Word) (bit : Word) (S : Nat → Prop) (x : Boot δ α) : Prop :=
  Moves (fun s s' => status s'.dev = status s.dev ∧ Memory.ChangedOnly S s.mem s'.mem)
    (fun e s s' => (e = .recovery → status s'.dev = status s.dev ||| bit) ∧
      Memory.ChangedOnly S s.mem s'.mem) x

theorem Marks.pure (a : α) : Marks status bit S (pure a : Boot δ α) :=
  Moves.pure (fun s => ⟨Eq.refl (status s.dev), .refl _ _⟩) a

theorem Marks.get : Marks status bit S (get : Boot δ (Machine δ)) :=
  Moves.get fun s => ⟨Eq.refl (status s.dev), .refl _ _⟩

theorem Marks.bind {x : Boot δ α} {f : α → Boot δ β} (hx : Marks status bit S x)
    (hf : ∀ a, Marks status bit S (f a)) : Marks status bit S (x >>= f) :=
  Moves.bind hx hf (fun _ _ _ h₁ h₂ => ⟨h₂.1.trans h₁.1, h₁.2.trans h₂.2⟩) (fun _ _ _ h => h)
    fun _ _ _ _ h₁ h₂ => ⟨fun he => by rw [h₂.1 he, h₁.1], h₁.2.trans h₂.2⟩

theorem Marks.ite {c : Prop} [Decidable c] {x y : Boot δ α} (hx : Marks status bit S x)
    (hy : Marks status bit S y) : Marks status bit S (if c then x else y) :=
  Moves.ite hx hy

theorem Marks.mono {T : Nat → Prop} {x : Boot δ α} (h : Marks status bit S x)
    (hST : ∀ x, S x → T x) : Marks status bit T x :=
  Moves.mono h (fun _ _ h => ⟨h.1, h.2.mono hST⟩) fun _ _ _ h => ⟨h.1, h.2.mono hST⟩

/-- Memory changes in `S` only, however the program ends. -/
def Stays (S : Nat → Prop) (x : Boot δ α) : Prop :=
  Moves (fun s s' => Memory.ChangedOnly S s.mem s'.mem)
    (fun _ s s' => Memory.ChangedOnly S s.mem s'.mem) x

theorem Marks.stays {x : Boot δ α} (h : Marks status bit S x) : Stays S x :=
  Moves.mono h (fun _ _ h => h.2) fun _ _ _ h => h.2

theorem Stays.bind {x : Boot δ α} {f : α → Boot δ β} (hx : Stays S x) (hf : ∀ a, Stays S (f a)) :
    Stays S (x >>= f) :=
  Moves.bind hx hf (fun _ _ _ => Memory.ChangedOnly.trans) (fun _ _ _ h => h)
    fun _ _ _ _ => Memory.ChangedOnly.trans

section Primitives

variable (hsr : StatusRegister p status)
include hsr

theorem readRegister_marks (a : Nat) : Marks status bit S (readRegister p a) :=
  fun s => wp_of_ok rfl ⟨hsr.read32 a s.dev, .refl _ _⟩

theorem writeRegister_marks (a : Nat) (value : Word) (ha : a ≠ BOOT_STATUS_REG) :
    Marks status bit S (writeRegister p a value) :=
  fun s => wp_of_ok rfl ⟨hsr.write32 a value s.dev ha, .refl _ _⟩

theorem loadByte_marks (a : Nat) : Marks status bit S (loadByte p a) := by
  intro s
  refine (loadByte_wp p status hsr.read8 S a s).mono (fun _ s' h => ⟨h.2.dev, h.2.mem⟩) ?_
  intro e s' h
  obtain ⟨he, _, hs⟩ := h
  subst he hs
  exact ⟨(fun h => nomatch h), .refl _ _⟩

theorem storeBytes_marks (a : Nat) (bs : List Byte) (hS : ∀ x, Within a bs.length x → S x) :
    Marks status bit S (storeBytes p a bs) := by
  intro s
  refine (storeBytes_wp p status a bs s fun x _ _ => hsr.write8 x).mono
    (fun _ s' h => ⟨h.2.dev, h.2.mem.mono hS⟩) ?_
  intro e s' h
  obtain ⟨x, he, _, _, hkept⟩ := h
  subst he
  exact ⟨(fun h => nomatch h), hkept.mem.mono hS⟩

theorem recoveryState_status (s : Machine δ) :
    status (recoveryState p bit s).dev = status s.dev ||| bit := by
  show status (p.write32 BOOT_STATUS_REG ((p.read32 BOOT_STATUS_REG s.dev).1 ||| bit) _) = _
  rw [hsr.write, hsr.value]

theorem enterRecovery_marks : Marks status bit S (enterRecovery p bit : Boot δ α) :=
  fun s => wp_of_error (enterRecovery_eq p bit s)
    ⟨fun _ => recoveryState_status hsr s, .refl _ _⟩

theorem recoverIf_marks (failed : Bool) : Marks status bit S (recoverIf p failed bit) :=
  .ite (enterRecovery_marks hsr) (.pure ())

/-! ## Helpers -/

theorem loadBytes_marks (a n : Nat) : Marks status bit S (loadBytes p a n) := by
  induction n generalizing a with
  | zero => exact .pure []
  | succ n ih => exact (loadByte_marks hsr a).bind fun b => (ih (a + 1)).bind fun bs => .pure _

theorem loadWord_marks (a : Nat) : Marks status bit S (loadWord p a) :=
  (loadBytes_marks hsr a 4).bind fun _ => .pure _

theorem loadHalf_marks (a : Nat) : Marks status bit S (loadHalf p a) :=
  (loadBytes_marks hsr a 2).bind fun _ => .pure _

theorem diffBytes_marks (left right n : Nat) (diff : Byte) :
    Marks status bit S (diffBytes p left right n diff) := by
  induction n generalizing left right diff with
  | zero => exact .pure diff
  | succ n ih =>
      exact (loadByte_marks hsr left).bind fun l => (loadByte_marks hsr right).bind fun r =>
        ih (left + 1) (right + 1) _

theorem sameBytes_marks (left right n : Nat) : Marks status bit S (sameBytes p left right n) :=
  (diffBytes_marks hsr left right n 0).bind fun _ => .pure _

theorem spiUnseen : SpiUnseen p status where
  status := hsr.read32 SPI_STATUS
  data := hsr.read32 SPI_DATA
  write a h₁ h₂ value d := by
    refine hsr.write32 a value d ?_
    have hbase : SPI_BASE + 0x14 ≤ BOOT_STATUS_REG := by decide
    omega

theorem readFlash_marks (offset total : Word) (output : Nat) :
    Marks status SR_LOAD_KERNEL (Within output total.toNat) (readFlash p offset total output) := by
  intro s
  refine (readFlash_wp p status (spiUnseen hsr) offset total output s
    fun x _ _ b d => hsr.write8 x b d).mono (fun _ s' h => ⟨h.2.dev, h.2.mem⟩) ?_
  intro e s' h
  cases h with
  | recovery s₁ hk => exact ⟨fun _ => by rw [recoveryState_status hsr, hk.dev], hk.mem⟩
  | fault x s₁ hx hk => exact ⟨(fun h => nomatch h), hk.mem⟩

theorem loadMessage_marks (a n : Nat) : Marks status bit S (loadMessage p a n) := by
  induction n generalizing a with
  | zero => exact .pure []
  | succ n ih =>
      exact (loadByte_marks hsr a).bind fun b => Marks.get.bind fun s =>
        (ih (a + 1)).bind fun bs => .pure _

/-- The digest into the boot area, and the frames. -/
theorem sha256Hash_marks (data len digest : Nat) (h₁ : 0x88000000 ≤ digest)
    (h₂ : digest + 32 ≤ 0x88010000) :
    Marks status bit BootArea (sha256Hash p data len digest) := by
  refine (loadMessage_marks hsr data len).bind fun bs => Marks.get.bind fun s => ?_
  obtain ⟨ctx, hctx⟩ := Sha256.sha256Hash_digest (p.frames.stale s.dev) bs
  rw [hctx]
  have hdigest : ∀ x, Within digest (Fips180.sha256 bs).length x → BootArea x := by
    intro x hx
    rw [Fips180.sha256_length] at hx
    exact ⟨Nat.le_trans h₁ hx.1, Nat.lt_of_lt_of_le hx.2 h₂⟩
  have hframe : ∀ x, inFrame x = true → BootArea x :=
    fun x hx => hashScratch_bootArea x (.inr hx)
  have hmodify : Marks status bit BootArea (modify fun s => { s with mem := stackAfter p ctx s } :
      Boot δ Unit) :=
    Moves.modify _ fun s => ⟨Eq.refl (status s.dev), (stackAfter_changedOnly p ctx s).mono hframe⟩
  exact (storeBytes_marks hsr digest _ hdigest).bind fun _ => hmodify

/-! ## The stages -/

theorem readFlash_bootArea_marks (offset total : Word) (output : Nat) (h₁ : 0x88000000 ≤ output)
    (h₂ : output + total.toNat ≤ 0x88010000) :
    Marks status SR_LOAD_KERNEL BootArea (readFlash p offset total output) :=
  (readFlash_marks hsr offset total output).mono
    fun _ hx => ⟨Nat.le_trans h₁ hx.1, Nat.lt_of_lt_of_le hx.2 h₂⟩

theorem readBootParts_marks : Marks status SR_LOAD_KERNEL BootArea (readBootParts p) :=
  (readFlash_bootArea_marks hsr _ _ _ (by decide) (by decide)).bind fun _ =>
    (readFlash_bootArea_marks hsr _ _ _ (by decide) (by decide)).bind fun _ =>
      readFlash_bootArea_marks hsr _ _ _ (by decide) (by decide)

theorem checkManifestHeader_marks (manifest : Nat) :
    Marks status SR_MANIFEST_HEADER S (checkManifestHeader p manifest) :=
  (loadWord_marks hsr _).bind fun _ => (recoverIf_marks hsr _).bind fun _ =>
    (loadHalf_marks hsr _).bind fun _ => recoverIf_marks hsr _

theorem readOtpWords_marks (output i n : Nat) :
    Marks status bit (Within (output + i) (4 * n)) (readOtpWords p output i n) := by
  induction n generalizing i with
  | zero => exact .pure ()
  | succ n ih =>
      refine (readRegister_marks hsr _).bind fun word => (storeBytes_marks hsr _ _ ?_).bind
        fun _ => (ih (i + 4)).mono ?_
      · intro x hx
        rw [leBytes_length] at hx
        exact ⟨hx.1, by have := hx.2; omega⟩
      · intro x hx
        obtain ⟨hx₁, hx₂⟩ := hx
        exact ⟨by omega, by omega⟩

theorem checkPublicKey_marks : Marks status SR_PUBLIC_KEY BootArea (checkPublicKey p) := by
  have hotp : Marks status SR_PUBLIC_KEY BootArea (readOtpHash p OTP_HASH_BUFFER) := by
    refine (readOtpWords_marks hsr _ 0 _).mono ?_
    intro x hx
    exact ⟨Nat.le_trans (by decide) hx.1, Nat.lt_of_lt_of_le hx.2 (by decide)⟩
  exact (sha256Hash_marks hsr _ _ _ (by decide) (by decide)).bind fun _ => hotp.bind fun _ =>
    (sameBytes_marks hsr _ _ _).bind fun _ => recoverIf_marks hsr _

theorem ed25519WriteWords_marks (data n : Nat) :
    Marks status bit S (ed25519WriteWords p data n) := by
  induction n generalizing data with
  | zero => exact .pure ()
  | succ n ih =>
      exact (loadWord_marks hsr data).bind fun word =>
        (writeRegister_marks hsr ED25519_DATA word (by decide)).bind fun _ => ih (data + 4)

theorem pollVerdict_marks (spin : Nat) :
    Marks status SR_MANIFEST_SIGNATURE S (pollVerdict p spin) := by
  induction spin using pollVerdict.induct with
  | case1 spin ih =>
      have hrecover : Marks status SR_MANIFEST_SIGNATURE S
          (enterRecovery p SR_MANIFEST_SIGNATURE : Boot δ Unit) := enterRecovery_marks hsr
      rw [pollVerdict]
      refine (readRegister_marks hsr ED25519_STATUS).bind fun status =>
        hrecover.ite ((Marks.ite (.pure ()) hrecover).ite ?_)
      by_cases hspin : MAX_SPIN < spin + 1
      · rw [if_pos hspin]
        exact hrecover
      · rw [if_neg hspin]
        exact ih hspin

theorem checkManifestSignature_marks :
    Marks status SR_MANIFEST_SIGNATURE S (checkManifestSignature p) :=
  (writeRegister_marks hsr _ _ (by decide)).bind fun _ =>
    (ed25519WriteWords_marks hsr _ _).bind fun _ => (ed25519WriteWords_marks hsr _ _).bind fun _ =>
      (ed25519WriteWords_marks hsr _ _).bind fun _ =>
        (writeRegister_marks hsr _ _ (by decide)).bind fun _ => pollVerdict_marks hsr 0

theorem untilStage3_stays : Stays BootArea (untilStage3 p) :=
  (readBootParts_marks hsr).stays.bind fun _ => (checkManifestHeader_marks hsr _).stays.bind
    fun _ => (checkPublicKey_marks hsr).stays.bind fun _ =>
      (checkManifestSignature_marks hsr).stays

theorem verifyPayload_marks (manifest output : Nat) :
    Marks status SR_LOAD_KERNEL BootArea (verifyPayload p manifest output) :=
  (loadWord_marks hsr _).bind fun _ =>
    (sha256Hash_marks hsr _ _ _ (by decide) (by decide)).bind fun _ =>
      (sameBytes_marks hsr _ _ _).bind fun _ => recoverIf_marks hsr _

/-- Where Stage 3 writes is up to the manifest. -/
theorem checkAndLoadKernel_marks (manifest : Nat) :
    Marks status SR_LOAD_KERNEL (fun _ => True) (checkAndLoadKernel p manifest) :=
  (loadWord_marks hsr _).bind fun _ => (loadWord_marks hsr _).bind fun _ =>
    (recoverIf_marks hsr _).bind fun _ => (recoverIf_marks hsr _).bind fun _ =>
      ((readFlash_marks hsr _ _ _).mono fun _ _ => trivial).bind fun _ =>
        (verifyPayload_marks hsr _ _).mono fun _ _ => trivial

theorem checkAndLoadKernel_late (hscratch : p.RamRange BOOT_SCRATCH_BASE 0x10000)
    (s : Machine δ) :
    Wp (checkAndLoadKernel p MANIFEST_BUFFER)
      (fun _ s' => Memory.ChangedOnly (LateArea (Manifest.ofMem s.mem)) s.mem s'.mem)
      (fun _ s' => Memory.ChangedOnly (LateArea (Manifest.ofMem s.mem)) s.mem s'.mem) s := by
  by_cases hguard : LoadRefused (Manifest.ofMem s.mem)
  · exact wp_of_error (checkAndLoadKernel_refused p hscratch s hguard) (.refl _ _)
  · refine Wp.congr ?_ (checkAndLoadKernel_guards p hscratch s)
    have hload : ∀ x, LoadRange (Manifest.ofMem s.mem) x → LateArea (Manifest.ofMem s.mem) x :=
      fun x hx => .inr ⟨hguard, hx⟩
    refine (Marks.bind (recoverIf_marks hsr _) (fun _ => (recoverIf_marks hsr _).bind fun _ =>
      ((readFlash_marks hsr _ _ _).mono hload).bind fun _ =>
        (verifyPayload_marks hsr _ _).mono fun x hx => .inl hx) s).mono ?_ ?_
    · exact fun _ _ h => h.2
    · exact fun _ _ h => h.2

theorem checkRollbackCounter_marks (manifest : Nat) :
    Marks status SR_ROLLBACK_COUNTER S (checkRollbackCounter p manifest) := by
  have hread : Marks status SR_ROLLBACK_COUNTER S (readRegister64 p ROLLBACK_COUNTER_BASE) :=
    fun s => wp_of_ok rfl ⟨hsr.read64 s.dev, .refl _ _⟩
  have hadvance : ∀ version, Marks status SR_ROLLBACK_COUNTER S (advanceCounter p version) := by
    intro version
    have hwrite : Marks status SR_ROLLBACK_COUNTER S
        (writeRegister64 p ROLLBACK_COUNTER_BASE version) :=
      fun s => wp_of_ok rfl ⟨hsr.write64 version s.dev, .refl _ _⟩
    exact hwrite.bind fun _ => hread.bind fun _ => recoverIf_marks hsr _
  exact hread.bind fun _ => (loadWord_marks hsr _).bind fun _ =>
    (recoverIf_marks hsr _).bind fun _ => (hadvance _).ite (.pure ())

end Primitives

end SecureBoot.Bootrom
