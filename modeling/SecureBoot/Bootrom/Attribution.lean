import SecureBoot.Bootrom.FailClosed
import SecureBoot.Bootrom.Marks
import SecureBoot.Bootrom.Policy

/-!
# Which check failed

`recovery.c`, and the status bit with which it is entered against the check
function that was running.
-/

namespace SecureBoot.Bootrom

open Words Exec

variable {δ α β : Type} {p : Platform δ} {status : δ → Word} {bit : Word}

/-! ## `recovery.c` -/

/-- One digit of `say_hex32`. -/
def hexDigit (nib : Nat) : Char := Char.ofNat (if nib < 10 then 48 + nib else 97 + nib - 10)

def sayHex32 (v : Word) : String :=
  String.ofList ('0' :: 'x' :: (List.range 8).map fun i =>
    hexDigit ((v >>> ((7 - i) * 4)) &&& 0xf).toNat)

/-- `if (status & bit) say(...);` -/
def sayIf (status bit : Word) (line : String) : List String :=
  if status &&& bit ≠ 0 then [line] else []

def banner (status : Word) : List String :=
  ["something went wrong, in recovery mode\n", "boot status register = ", sayHex32 status, "\n"]

/-- The diagnostic lines. -/
def diagnostics (status : Word) : List String :=
  sayIf status SR_MANIFEST_HEADER "  - check_manifest_header failed (bit 0)\n" ++
  sayIf status SR_PUBLIC_KEY
    "  - check_public_key failed (bit 1) -- OTP root-of-trust mismatch\n" ++
  sayIf status SR_MANIFEST_SIGNATURE
    "  - check_manifest_signature failed (bit 2) -- Ed25519 invalid\n" ++
  sayIf status SR_LOAD_KERNEL
    "  - check_and_load_kernel failed (bit 3) -- kernel hash mismatch / bad params\n" ++
  sayIf status SR_ROLLBACK_COUNTER
    "  - check_rollback_counter failed (bit 4) -- version too old\n" ++
  sayIf status SR_LOCK_PMP "  - lock_pmp failed (bit 5)\n" ++
  if status = 0 then ["  - (no bits set; BootROM jumped here without writing SR)\n"] else []

/-- What `main` writes, string by string: a function of the status register. -/
def recoveryMain (p : Platform δ) (d : δ) : List String :=
  banner (p.read32 BOOT_STATUS_REG d).1 ++ diagnostics (p.read32 BOOT_STATUS_REG d).1

/-- The recovery image is at its entry, and ends below BootROM's own buffers. -/
structure RecoveryLoaded (image : List Byte) (mem : Memory) : Prop where
  fits : RECOVERY_ENTRY + image.length ≤ BOOT_SCRATCH_BASE
  loaded : mem.read RECOVERY_ENTRY image.length = image

/-- What is written after the `mret` into recovery: what `main` writes, if the image is still what
the hart fetches there. Of any other code nothing is known. -/
def recoveryConsole (p : Platform δ) (image : List Byte) (s' : Machine δ) :
    Option (List String) :=
  if s'.mem.read RECOVERY_ENTRY image.length = image then some (recoveryMain p s'.dev) else none

/-! ## Attribution -/

namespace Check

/-- The line of the recovery image about the bit. -/
def line : Check → String
  | header => "  - check_manifest_header failed (bit 0)\n"
  | publicKey => "  - check_public_key failed (bit 1) -- OTP root-of-trust mismatch\n"
  | signature => "  - check_manifest_signature failed (bit 2) -- Ed25519 invalid\n"
  | payload =>
      "  - check_and_load_kernel failed (bit 3) -- kernel hash mismatch / bad params\n"
  | version => "  - check_rollback_counter failed (bit 4) -- version too old\n"

variable (p)

def function : Check → Boot δ Unit
  | header => checkManifestHeader p MANIFEST_BUFFER
  | publicKey => checkPublicKey p
  | signature => checkManifestSignature p
  | payload => checkAndLoadKernel p MANIFEST_BUFFER
  | version => checkRollbackCounter p MANIFEST_BUFFER

/-- What `bootrom_main` has run when it calls the function. -/
def before : Check → Boot δ Unit
  | header => readBootParts p
  | publicKey => do
      readBootParts p
      checkManifestHeader p MANIFEST_BUFFER
  | signature => do
      readBootParts p
      checkManifestHeader p MANIFEST_BUFFER
      checkPublicKey p
  | payload => do
      readBootParts p
      checkManifestHeader p MANIFEST_BUFFER
      checkPublicKey p
      checkManifestSignature p
  | version => do
      readBootParts p
      checkManifestHeader p MANIFEST_BUFFER
      checkPublicKey p
      checkManifestSignature p
      checkAndLoadKernel p MANIFEST_BUFFER

end Check

/-- A run into recovery names its cause: one bit is set, the function of that bit had been entered
and had not returned, and the recovery image, unharmed, prints its line and no other. -/
def Attributed (p : Platform δ) (status : δ → Word) (image : List Byte) (s s' : Machine δ) :
    Prop :=
  ∃ c : Check, (∃ s₁, c.before p s = .ok () s₁ ∧ c.function p s₁ = .error .recovery s') ∧
    status s'.dev = 1 <<< c.stage ∧
    recoveryConsole p image s' = some (banner (status s'.dev) ++ [c.line])

/-- The SPI block answers the three transactions of `read_boot_parts`: every word with DATA_READY
and without ERROR, then DONE, whatever else STATUS shows with it. -/
def BootPartsServed (p : Platform δ) (d : δ) : Prop :=
  ∃ d₁ d₂ d₃ manifest signature key,
    p.spiPort.Serves MAX_SPIN MANIFEST_OFFSET MANIFEST_SIZE d manifest d₁ ∧
    p.spiPort.Serves MAX_SPIN SIGNATURE_OFFSET SIGNATURE_SIZE d₁ signature d₂ ∧
    p.spiPort.Serves MAX_SPIN PUBLIC_KEY_OFFSET PUBLIC_KEY_SIZE d₂ key d₃

/-! ## The bit and the line -/

theorem diagnostics_one (c : Check) : diagnostics (1 <<< c.stage) = [c.line] := by
  cases c <;> decide

theorem recoveryMain_eq (hsr : StatusRegister p status) (d : δ) :
    recoveryMain p d = banner (status d) ++ diagnostics (status d) := by
  rw [recoveryMain, hsr.value]

theorem function_marks (hsr : StatusRegister p status) (c : Check) :
    Marks status (1 <<< c.stage) (fun _ => True) (c.function p) := by
  cases c with
  | header => exact checkManifestHeader_marks hsr _
  | publicKey => exact (checkPublicKey_marks hsr).mono fun _ _ => trivial
  | signature => exact checkManifestSignature_marks hsr
  | payload => exact checkAndLoadKernel_marks hsr _
  | version => exact checkRollbackCounter_marks hsr _

/-- A return leaves the register alone. -/
def Quiet (status : δ → Word) (x : Boot δ α) : Prop :=
  Moves (fun s s' => status s'.dev = status s.dev) (fun _ _ _ => True) x

theorem Marks.quiet {S : Nat → Prop} {x : Boot δ α} (h : Marks status bit S x) : Quiet status x :=
  Moves.mono h (fun _ _ h => h.1) fun _ _ _ _ => trivial

theorem Quiet.bind {x : Boot δ α} {f : α → Boot δ β} (hx : Quiet status x)
    (hf : ∀ a, Quiet status (f a)) : Quiet status (x >>= f) :=
  Moves.bind hx hf (fun _ _ _ h₁ h₂ => h₂.trans h₁) (fun _ _ _ h => h) fun _ _ _ _ _ h => h

theorem before_quiet (hsr : StatusRegister p status) (c : Check) :
    Quiet status (c.before p) := by
  have hparts := (readBootParts_marks hsr).quiet
  have hfunction := fun c : Check => (function_marks hsr c).quiet
  cases c with
  | header => exact hparts
  | publicKey => exact hparts.bind fun _ => hfunction .header
  | signature =>
      exact hparts.bind fun _ => (hfunction .header).bind fun _ => hfunction .publicKey
  | payload =>
      exact hparts.bind fun _ => (hfunction .header).bind fun _ =>
        (hfunction .publicKey).bind fun _ => hfunction .signature
  | version =>
      exact hparts.bind fun _ => (hfunction .header).bind fun _ =>
        (hfunction .publicKey).bind fun _ => (hfunction .signature).bind fun _ =>
          hfunction .payload

/-- A check that is entered with a clear register and fails is named, if the image is unharmed. -/
theorem attributed_of_fails (hsr : StatusRegister p status) {image : List Byte}
    {s s₁ s' : Machine δ} (h0 : status s.dev = 0) (c : Check) (hbefore : c.before p s = .ok () s₁)
    (hfails : c.function p s₁ = .error .recovery s')
    (hintact : s'.mem.read RECOVERY_ENTRY image.length = image) :
    Attributed p status image s s' := by
  have hclear : status s₁.dev = 0 := ((before_quiet hsr c).ok hbefore).trans h0
  have hbit : status s'.dev = 1 <<< c.stage := by
    rw [((function_marks hsr c).error hfails).1 rfl, hclear]
    exact BitVec.zero_or
  refine ⟨c, ⟨s₁, hbefore, hfails⟩, hbit, ?_⟩
  rw [recoveryConsole, if_pos hintact, recoveryMain_eq hsr, hbit, diagnostics_one]

theorem Check.bit_eq (k : Check) : k.bit = 1 <<< k.stage := by
  cases k <;> rfl

/-! ## After the checks -/

/-- The program does not enter recovery. -/
def NoRecovery (x : Boot δ α) : Prop := Moves (fun _ _ => True) (fun e _ _ => e ≠ .recovery) x

theorem NoRecovery.bind {x : Boot δ α} {f : α → Boot δ β} (hx : NoRecovery x)
    (hf : ∀ a, NoRecovery (f a)) : NoRecovery (x >>= f) :=
  Moves.bind hx hf (fun _ _ _ _ _ => trivial) (fun _ _ _ h => h) fun _ _ _ _ _ h => h

theorem storeByte_noRecovery (a : Nat) (b : Byte) : NoRecovery (storeByte p a b) := by
  intro s
  refine (storeByte_wp p (fun _ => ()) a b s fun _ _ _ => rfl).mono (fun _ _ _ => trivial) ?_
  intro e s' h
  rw [h.1]
  exact fun he => nomatch he

theorem storeBytes_noRecovery (a : Nat) (bs : List Byte) : NoRecovery (storeBytes p a bs) := by
  induction bs generalizing a with
  | nil => exact Moves.pure (fun _ => trivial) ()
  | cons b bs ih => exact (storeByte_noRecovery a b).bind fun _ => ih (a + 1)

/-- Nothing after Stage 4 enters recovery. -/
theorem handoff_noRecovery :
    NoRecovery (do clearScratch p; lockPmp p; jumpToKernel p 0x80000000; halt) := by
  have hclear : NoRecovery (clearScratch p) :=
    (storeBytes_noRecovery _ _).bind fun _ => (storeBytes_noRecovery _ _).bind fun _ =>
      (storeBytes_noRecovery _ _).bind fun _ => (storeBytes_noRecovery _ _).bind fun _ =>
        (storeBytes_noRecovery _ _).bind fun _ => (storeBytes_noRecovery _ _).bind fun _ =>
          storeBytes_noRecovery _ _
  have hlock : NoRecovery (lockPmp p) := fun _ => wp_of_ok rfl trivial
  have hjump : NoRecovery (jumpToKernel p 0x80000000) :=
    fun _ => wp_of_error rfl fun h => nomatch h
  have hhalt : NoRecovery (halt : Boot δ Unit) := fun _ => wp_of_error rfl fun h => nomatch h
  exact hclear.bind fun _ => hlock.bind fun _ => hjump.bind fun _ => hhalt

/-! ## The runs into recovery -/

/-- No check is entered before the boot parts are read. -/
theorem before_readBootParts {c : Check} {s s₁ : Machine δ} (h : c.before p s = .ok () s₁) :
    ∃ s₀, readBootParts p s = .ok () s₀ := by
  have hfirst : ∀ {f : Unit → Boot δ Unit}, (readBootParts p >>= f) s = .ok () s₁ →
      ∃ s₀, readBootParts p s = .ok () s₀ := by
    intro f hf
    obtain ⟨_, s₀, hread, _⟩ := ok_of_bind hf
    exact ⟨s₀, hread⟩
  cases c with
  | header => exact ⟨s₁, h⟩
  | publicKey => exact hfirst h
  | signature => exact hfirst h
  | payload => exact hfirst h
  | version => exact hfirst h

theorem readBootParts_served (hscratch : p.RamRange BOOT_SCRATCH_BASE 0x10000) (s : Machine δ) :
    (∃ s₀, readBootParts p s = .ok () s₀) ↔ BootPartsServed p s.dev := by
  have hmanifest : p.RamRange MANIFEST_BUFFER MANIFEST_SIZE.toNat :=
    hscratch.mono (by decide) (by decide)
  have hsignature : p.RamRange SIGNATURE_BUFFER SIGNATURE_SIZE.toNat :=
    hscratch.mono (by decide) (by decide)
  have hkey : p.RamRange PUBLIC_KEY_BUFFER PUBLIC_KEY_SIZE.toNat :=
    hscratch.mono (by decide) (by decide)
  constructor
  · intro h
    rcases h with ⟨s₀, h⟩
    obtain ⟨_, s₁, h₁, h⟩ := ok_of_bind h
    obtain ⟨_, s₂, h₂, h₃⟩ := ok_of_bind h
    obtain ⟨manifest, hserves₁, _⟩ := readFlash_answered p _ _ _ s s₁ hmanifest h₁
    obtain ⟨signature, hserves₂, _⟩ := readFlash_answered p _ _ _ s₁ s₂ hsignature h₂
    obtain ⟨key, hserves₃, _⟩ := readFlash_answered p _ _ _ s₂ s₀ hkey h₃
    exact ⟨_, _, _, manifest, signature, key, hserves₁, hserves₂, hserves₃⟩
  · intro h
    rcases h with ⟨d₁, d₂, d₃, manifest, signature, key, h₁, h₂, h₃⟩
    have hserves : ∀ (offset total : Word) (output : Nat) (s : Machine δ) (bs : List Byte)
        (d : δ), p.RamRange output total.toNat → p.spiPort.Serves MAX_SPIN offset total s.dev bs d →
          ∃ s', readFlash p offset total output s = .ok () s' ∧ s'.dev = d :=
      fun offset total output s bs d hram h =>
        ⟨_, readFlash_serves p offset total output s bs d hram h, rfl⟩
    obtain ⟨s₁, hrun₁, hdev₁⟩ := hserves _ _ _ s _ _ hmanifest h₁
    rw [← hdev₁] at h₂
    obtain ⟨s₂, hrun₂, hdev₂⟩ := hserves _ _ _ s₁ _ _ hsignature h₂
    rw [← hdev₂] at h₃
    obtain ⟨s₃, hrun₃, _⟩ := hserves _ _ _ s₂ _ _ hkey h₃
    exact ⟨s₃, (bind_of_ok hrun₁ _).trans ((bind_of_ok hrun₂ _).trans hrun₃)⟩

/-- A run into recovery that has read the boot parts is inside one of the checks. -/
theorem recovery_in_check {s s₀ s' : Machine δ} (hread : readBootParts p s = .ok () s₀)
    (hrun : bootromMain p s = .error .recovery s') :
    ∃ (c : Check) (s₁ : Machine δ),
      c.before p s = .ok () s₁ ∧ c.function p s₁ = .error .recovery s' := by
  rw [bootromMain, bind_of_ok hread] at hrun
  rcases error_of_bind hrun with h₀ | ⟨_, s₁, h₀, hrun⟩
  · exact ⟨.header, s₀, hread, h₀⟩
  rcases error_of_bind hrun with h₁ | ⟨_, s₂, h₁, hrun⟩
  · refine ⟨.publicKey, s₁, ?_, h₁⟩
    rw [Check.before, bind_of_ok hread, h₀]
  rcases error_of_bind hrun with h₂ | ⟨_, s₃, h₂, hrun⟩
  · refine ⟨.signature, s₂, ?_, h₂⟩
    rw [Check.before, bind_of_ok hread, bind_of_ok h₀, h₁]
  rcases error_of_bind hrun with h₃ | ⟨_, s₄, h₃, hrun⟩
  · refine ⟨.payload, s₃, ?_, h₃⟩
    rw [Check.before, bind_of_ok hread, bind_of_ok h₀, bind_of_ok h₁, h₂]
  rcases error_of_bind hrun with h₄ | ⟨_, s₅, h₄, hrun⟩
  · refine ⟨.version, s₄, ?_, h₄⟩
    rw [Check.before, bind_of_ok hread, bind_of_ok h₀, bind_of_ok h₁, bind_of_ok h₂, h₃]
  exact absurd rfl (handoff_noRecovery.error hrun)

theorem recovery_memory (hsr : StatusRegister p status)
    (hscratch : p.RamRange BOOT_SCRATCH_BASE 0x10000) {s s' : Machine δ}
    (hrun : bootromMain p s = .error .recovery s') :
    Memory.ChangedOnly (RecoveryArea p s) s.mem s'.mem := by
  rw [bootromMain_split] at hrun
  rcases error_of_bind hrun with h | ⟨_, t, ht, h⟩
  · exact ((untilStage3_stays hsr).error h).mono fun x hx => .inl hx
  have hearly : Memory.ChangedOnly (RecoveryArea p s) s.mem t.mem :=
    ((untilStage3_stays hsr).ok ht).mono fun x hx => .inl hx
  have hlate : ∀ x, LateArea (Manifest.ofMem t.mem) x → RecoveryArea p s x :=
    fun x hx => .inr ⟨t, ht, hx⟩
  rcases error_of_bind h with h | ⟨_, t', hload, h⟩
  · exact hearly.trans (((checkAndLoadKernel_late hsr hscratch t).error h).mono hlate)
  have hloaded := ((checkAndLoadKernel_late hsr hscratch t).ok hload).mono hlate
  rcases error_of_bind h with h | ⟨_, t'', _, h⟩
  · exact (hearly.trans hloaded).trans ((checkRollbackCounter_marks hsr _).error h).2
  · exact absurd rfl (handoff_noRecovery.error h)

/-- A run into recovery is named only when the flash block answered the reads of manifest, signature
and key; and it is, if moreover the accepted manifest, if it came to that, spares the recovery
image. -/
theorem recovery_attributed (hsr : StatusRegister p status)
    (hscratch : p.RamRange BOOT_SCRATCH_BASE 0x10000) (image : List Byte) (s s' : Machine δ)
    (h0 : status s.dev = 0) (himage : RecoveryLoaded image s.mem)
    (hrun : bootromMain p s = .error .recovery s') :
    (Attributed p status image s s' → BootPartsServed p s.dev) ∧
      (BootPartsServed p s.dev →
        (∀ t, untilStage3 p s = .ok () t → SparesRecovery image.length (Manifest.ofMem t.mem)) →
        Attributed p status image s s') := by
  rw [← readBootParts_served hscratch s]
  constructor
  · intro h
    rcases h with ⟨c, ⟨s₁, hbefore, _⟩, _⟩
    exact before_readBootParts hbefore
  · intro h hspares
    rcases h with ⟨s₀, hread⟩
    obtain ⟨c, s₁, hbefore, hfails⟩ := recovery_in_check hread hrun
    exact attributed_of_fails hsr h0 c hbefore hfails
      ((read_of_spared himage.fits (recovery_memory hsr hscratch hrun) hspares).trans
        himage.loaded)

/-- A recovery image of one instruction. -/
def recoveryStub : List Byte := [0x6F, 0, 0, 0]

def stubMemory : Memory := Memory.write (fun _ => 0) RECOVERY_ENTRY recoveryStub

theorem stubMemory_loaded : RecoveryLoaded recoveryStub stubMemory where
  fits := by decide
  loaded := Memory.read_write_same _ _ _

/-- An image too old for the counter: Stage 4 is named. -/
theorem selfLoop_attributed :
    ∃ s', bootromMain selfLoop.chip.platform (Image.atReset stubMemory 2) =
        .error .recovery s' ∧ s'.dev.status = SR_ROLLBACK_COUNTER ∧
      Attributed selfLoop.chip.platform Devices.status recoveryStub (Image.atReset stubMemory 2)
        s' := by
  obtain ⟨t, hloaded, hrun⟩ := selfLoop_runs stubMemory 2
  have hsr := soc_statusRegister selfLoop.chip (fun _ _ => rfl) fun _ _ _ => rfl
  have hstatus : t.dev.status = 0 := (Prod.mk.inj hloaded.kept.dev).2
  have hserved : BootPartsServed selfLoop.chip.platform (Image.atReset stubMemory 2).dev := by
    obtain ⟨q₁, q₂, q₃, h₁, h₂, h₃, _⟩ := selfLoop.chip_serves selfLoop_size.symm ⟨0, 4, 0⟩
    exact (readBootParts_served selfLoop.chip.scratchRam _).mp
      ⟨_, readBootParts_serves selfLoop.chip selfLoop _ q₁ q₂ q₃ h₁ h₂ h₃⟩
  refine ⟨_, hrun, ?_, (recovery_attributed hsr selfLoop.chip.scratchRam recoveryStub _ _ rfl
    stubMemory_loaded hrun).2 hserved ?_⟩
  · show t.dev.status ||| SR_ROLLBACK_COUNTER = _
    rw [hstatus]
    rfl
  · intro t ht
    rw [selfLoop.chip_untilStage3 ht]
    exact selfLoop_sparesRecovery _

/-! ## A flash block that reports an error -/

/-- Every STATUS of the SPI block has ERROR set. -/
def refusing : Soc Unit where
  port := ⟨fun _ _ => (0x4, ()), fun _ _ _ => ()⟩
  otpHash := Vector.replicate 32 0
  script _ := false
  hartid := 0
  frames :=
    ⟨fun _ => ⟨Vector.replicate 8 0, 0, Vector.replicate 64 0, 0⟩, fun _ _ => 0, fun _ _ => 0⟩
  read8 _ d := (0, d)
  write8 _ _ d := d

def refusingReset : Machine (Devices Unit) where
  mem := stubMemory
  dev := ⟨(), ⟨Vector.replicate 192 0, 0, 0, 0, ⟨[], [], []⟩⟩, 0, 0⟩
  mtvec := START
  mepc := 0
  mstatus := 0
  a0 := 0
  a1 := 0
  pmp := .zero

/-- The first poll ends in recovery. -/
theorem refusing_readBootParts : readBootParts refusing.platform refusingReset =
    .error .recovery (recoveryState refusing.platform SR_LOAD_KERNEL refusingReset) := by
  have hpoll : pollData refusing.platform MANIFEST_BUFFER 96 0 0 refusingReset =
      .error .recovery (recoveryState refusing.platform SR_LOAD_KERNEL refusingReset) := by
    rw [pollData, if_pos (by decide)]
    rfl
  have hread : readFlash refusing.platform MANIFEST_OFFSET MANIFEST_SIZE MANIFEST_BUFFER
      refusingReset = .error .recovery (recoveryState refusing.platform SR_LOAD_KERNEL
        refusingReset) := by
    rw [readFlash, bind_of_ok (startFlashRead_eq _ _ _ _)]
    exact bind_of_error hpoll _
  exact bind_of_error hread _

theorem refusing_run : bootromMain refusing.platform refusingReset =
    .error .recovery (recoveryState refusing.platform SR_LOAD_KERNEL refusingReset) :=
  bind_of_error refusing_readBootParts _

/-- A flash that refuses the very first read is blamed on `check_and_load_kernel`, which was not
entered. -/
theorem refusing_misattributed : ∃ s', refusingReset.dev.status = 0 ∧
    RecoveryLoaded recoveryStub refusingReset.mem ∧
    bootromMain refusing.platform refusingReset = .error .recovery s' ∧
    s'.dev.status = SR_LOAD_KERNEL ∧
    ¬ Attributed refusing.platform Devices.status recoveryStub refusingReset s' := by
  refine ⟨_, rfl, stubMemory_loaded, refusing_run, rfl, ?_⟩
  intro h
  rcases h with ⟨c, ⟨s₁, hbefore, _⟩, _⟩
  obtain ⟨s₀, hread⟩ := before_readBootParts hbefore
  rw [refusing_readBootParts] at hread
  cases hread

/-! ## Refused images -/

section Refused

variable {σ : Type} {soc : Soc σ} {I : Image} {image : List Byte}

theorem Packed.sparesRecovery {M : Manifest} (h : Packed M) (len : Nat) : SparesRecovery len M := by
  refine .inr fun x hx hin => ?_
  have haddr := addresses
  have hbelow := h.loadRange x hx
  have habove := hin.1
  omega

/-- A refused boot leaves the recovery image as it was, if past Stage 2 the manifest spares it. -/
theorem Recovers.intact {k : Check} {s s' : Machine (Devices σ)} (h : Recovers k s s')
    (hserved : I.ServedBy soc s.dev.spi)
    (hspares : 2 < k.stage → SparesRecovery image.length I.manifest)
    (hrun : bootromMain soc.platform s = .error .recovery s')
    (himage : RecoveryLoaded image s.mem) :
    s'.mem.read RECOVERY_ENTRY image.length = image := by
  by_cases hstage : k.stage ≤ 2
  · refine ((h.memory hstage).read_eq ?_).trans himage.loaded
    exact fun x _ hx harea => Nat.not_lt.mpr (Nat.le_trans himage.fits harea.1) hx
  · refine (read_of_spared himage.fits (recovery_changes soc hrun).2 ?_).trans himage.loaded
    intro t ht
    rw [hserved.accepted ht]
    exact hspares (Nat.not_le.mp hstage)

/-- From a clear register the console names the first failing check. -/
theorem Recovers.console {k : Check} {s s' : Machine (Devices σ)} (h : Recovers k s s')
    (hclear : s.dev.status = 0) (hintact : s'.mem.read RECOVERY_ENTRY image.length = image) :
    recoveryConsole soc.platform image s' = some (banner k.bit ++ [k.line]) := by
  have hstatus : (soc.platform.read32 BOOT_STATUS_REG s'.dev).1 = k.bit := by
    show s'.dev.status = k.bit
    rw [h.status, hclear]
    exact BitVec.zero_or
  rw [recoveryConsole, if_pos hintact, recoveryMain, hstatus, k.bit_eq, diagnostics_one]

end Refused

end SecureBoot.Bootrom
