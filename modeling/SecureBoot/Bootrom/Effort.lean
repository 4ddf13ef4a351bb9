import SecureBoot.Bootrom.Exchange

/-!
# How long a boot takes

A bound on the peripheral accesses of each function, and of the whole boot,
against peripherals that answer anything.
-/

namespace SecureBoot.Bootrom

open Words Exec

variable {δ α β : Type}

/-! ## Counting accesses -/

/-- The accesses made so far. -/
def Machine.accesses (s : Logged δ) : Nat := s.dev.2.length

/-- An exit that is no memory fault is the kernel's or the recovery's `mret`, within `n`
accesses. -/
def LeftWithin (n : Nat) (e : Exit) (s s' : Logged δ) : Prop :=
  (∀ a, e ≠ .fault a) → (e = .kernel ∨ e = .recovery) ∧ s'.accesses ≤ s.accesses + n

/-- The program makes at most `n` accesses. -/
def Costs (n : Nat) (x : Boot (δ × List MmioEvent) α) : Prop :=
  Moves (fun s s' => s'.accesses ≤ s.accesses + n) (LeftWithin n) x

theorem Costs.pure (a : α) : Costs 0 (pure a : Boot (δ × List MmioEvent) α) :=
  Moves.pure (fun s => Nat.le_refl s.accesses) a

theorem Costs.mono {n m : Nat} {x : Boot (δ × List MmioEvent) α} (h : Costs n x) (hnm : n ≤ m) :
    Costs m x := by
  refine Moves.mono h (fun s s' hle => ?_) fun e s s' hleft hfault => ?_
  · omega
  · have hn := hleft hfault
    exact ⟨hn.1, by omega⟩

theorem Costs.bind {n m : Nat} {x : Boot (δ × List MmioEvent) α}
    {f : α → Boot (δ × List MmioEvent) β} (hx : Costs n x) (hf : ∀ a, Costs m (f a)) :
    Costs (n + m) (x >>= f) := by
  refine Moves.bind hx hf (fun s s₁ s' h₁ h₂ => ?_) (fun e s s' hleft hfault => ?_)
    fun e s s₁ s' h₁ hleft hfault => ?_
  · omega
  · have hn := hleft hfault
    exact ⟨hn.1, by omega⟩
  · have hm := hleft hfault
    exact ⟨hm.1, by omega⟩

theorem Costs.ite {n : Nat} {c : Prop} [Decidable c] {x y : Boot (δ × List MmioEvent) α}
    (hx : Costs n x) (hy : Costs n y) : Costs n (if c then x else y) :=
  Moves.ite hx hy

/-- The program never returns, and leaves within `n` accesses. -/
def Leaves (n : Nat) (x : Boot (δ × List MmioEvent) α) : Prop :=
  Moves (fun _ _ => False) (LeftWithin n) x

theorem Leaves.mono {n m : Nat} {x : Boot (δ × List MmioEvent) α} (h : Leaves n x)
    (hnm : n ≤ m) : Leaves m x := by
  refine Moves.mono h (fun _ _ h => h) fun e s s' hleft hfault => ?_
  have hn := hleft hfault
  exact ⟨hn.1, by omega⟩

theorem Costs.leaves {n m : Nat} {x : Boot (δ × List MmioEvent) α}
    {f : α → Boot (δ × List MmioEvent) β} (hx : Costs n x) (hf : ∀ a, Leaves m (f a)) :
    Leaves (n + m) (x >>= f) := by
  refine Moves.bind hx hf (fun _ _ _ _ h => h) (fun e s s' hleft hfault => ?_)
    fun e s s₁ s' h₁ hleft hfault => ?_
  · have hn := hleft hfault
    exact ⟨hn.1, by omega⟩
  · have hm := hleft hfault
    exact ⟨hm.1, by omega⟩

/-- A program that only touches the machine. -/
theorem costs_modify (f : Logged δ → Logged δ) (h : ∀ s, (f s).dev = s.dev) :
    Costs 0 (modify f : Boot (δ × List MmioEvent) Unit) := by
  refine Moves.modify f fun s => ?_
  have hsame : (f s).accesses = s.accesses := congrArg (fun d => d.2.length) (h s)
  exact Nat.le_of_eq hsame

theorem costs_get : Costs 0 (get : Boot (δ × List MmioEvent) (Logged δ)) :=
  Moves.get fun s => Nat.le_refl s.accesses

/-! ## Single accesses -/

variable (p : Platform δ)

theorem readRegister_costs (a : Nat) : Costs 1 (readRegister p.logged a) :=
  fun _ => wp_of_ok rfl (Nat.le_of_eq List.length_append)

theorem writeRegister_costs (a : Nat) (value : Word) : Costs 1 (writeRegister p.logged a value) :=
  fun _ => wp_of_ok rfl (Nat.le_of_eq List.length_append)

theorem readRegister64_costs (a : Nat) : Costs 1 (readRegister64 p.logged a) :=
  fun _ => wp_of_ok rfl (Nat.le_of_eq List.length_append)

theorem writeRegister64_costs (a : Nat) (value : DWord) :
    Costs 1 (writeRegister64 p.logged a value) :=
  fun _ => wp_of_ok rfl (Nat.le_of_eq List.length_append)

theorem loadByte_costs (a : Nat) : Costs 1 (loadByte p.logged a) := by
  intro s
  cases hram : p.ram a with
  | true => exact wp_of_ok (loadByte_ram p.logged a s hram) (Nat.le_add_right _ _)
  | false =>
      cases hmmio : p.mmio a with
      | true =>
          exact wp_of_ok (loadByte_mmio p.logged a s hram hmmio) (Nat.le_of_eq List.length_append)
      | false =>
          exact wp_of_error (loadByte_fault p.logged a s hram hmmio) fun h => absurd rfl (h a)

theorem storeByte_costs (a : Nat) (b : Byte) : Costs 1 (storeByte p.logged a b) := by
  intro s
  cases hram : p.ram a with
  | true => exact wp_of_ok (storeByte_ram p.logged a b s hram) (Nat.le_add_right _ _)
  | false =>
      cases hmmio : p.mmio a with
      | true =>
          exact wp_of_ok (storeByte_mmio p.logged a b s hram hmmio)
            (Nat.le_of_eq List.length_append)
      | false =>
          exact wp_of_error (storeByte_fault p.logged a b s hram hmmio) fun h => absurd rfl (h a)

/-! ## Helpers -/

theorem loadBytes_costs (a n : Nat) : Costs n (loadBytes p.logged a n) := by
  induction n generalizing a with
  | zero => exact .pure []
  | succ n ih =>
      refine ((loadByte_costs p a).bind fun b => (ih (a + 1)).bind fun bs => .pure _).mono ?_
      omega

theorem storeBytes_costs (a : Nat) (bs : List Byte) :
    Costs bs.length (storeBytes p.logged a bs) := by
  induction bs generalizing a with
  | nil => exact .pure ()
  | cons b bs ih =>
      refine ((storeByte_costs p a b).bind fun _ => ih (a + 1)).mono ?_
      rw [List.length_cons]
      omega

theorem loadWord_costs (a : Nat) : Costs 4 (loadWord p.logged a) :=
  (loadBytes_costs p a 4).bind fun _ => .pure _

theorem loadHalf_costs (a : Nat) : Costs 2 (loadHalf p.logged a) :=
  (loadBytes_costs p a 2).bind fun _ => .pure _

theorem enterRecovery_costs (reason : Word) :
    Costs 2 (enterRecovery p.logged reason : Boot (δ × List MmioEvent) α) := by
  intro s
  refine wp_of_error (enterRecovery_eq p.logged reason s) fun _ => ⟨.inr rfl, ?_⟩
  simp [recoveryState, Machine.accesses, Platform.logged]

theorem recoverIf_costs (failed : Bool) (reason : Word) :
    Costs 2 (recoverIf p.logged failed reason) :=
  .ite (enterRecovery_costs p reason) ((Costs.pure ()).mono (by omega))

theorem diffBytes_costs (left right n : Nat) (diff : Byte) :
    Costs (2 * n) (diffBytes p.logged left right n diff) := by
  induction n generalizing left right diff with
  | zero => exact .pure diff
  | succ n ih =>
      refine ((loadByte_costs p left).bind fun l =>
        (loadByte_costs p right).bind fun r => ih (left + 1) (right + 1) _).mono ?_
      omega

theorem sameBytes_costs (left right n : Nat) : Costs (2 * n) (sameBytes p.logged left right n) :=
  (diffBytes_costs p left right n 0).bind fun _ => .pure _

theorem clearBytes_costs (buffer n : Nat) : Costs n (clearBytes p.logged buffer n) := by
  have h := storeBytes_costs p buffer (List.replicate n 0)
  rwa [List.length_replicate] at h

/-! ## `read_flash` -/

/-- An access to a register of the SPI block. -/
def spiRegister : MmioEvent → Bool
  | .read32 a _ => SPI_BASE ≤ a && a < SPI_BASE + 0x1000
  | .write32 a _ => SPI_BASE ≤ a && a < SPI_BASE + 0x1000
  | _ => false

/-- The accesses of `read_flash` to the SPI registers for `n` bytes. -/
def flashAccesses (n : Nat) : Nat := 4 + (n + 3) / 4 * (MAX_SPIN + 2) + (MAX_SPIN + 1)

theorem transcript_length (output total bytesRead : Nat) (polls : List Poll) :
    (transcript p output total bytesRead polls).length ≤
      polls.length + (words polls).length + (total - bytesRead) := by
  induction polls generalizing bytesRead with
  | nil => exact Nat.zero_le _
  | cons poll polls ih =>
      cases poll with
      | wait status herror hempty =>
          have hrest := ih bytesRead
          simp only [transcript, words, List.length_cons]
          omega
      | word status herror hready value =>
          have hrest := ih (bytesRead + min 4 (total - bytesRead))
          have hstore := storeEvents_length p (output + bytesRead)
            ((leBytes value).take (total - bytesRead))
          rw [leBytes_take_length] at hstore
          simp only [transcript, words, List.length_cons, List.length_append]
          omega

/-- Stores of the buffer are no accesses to the registers. -/
theorem countP_storeEvents (a : Nat) (bs : List Byte) :
    (p.storeEvents a bs).countP spiRegister = 0 := by
  induction bs generalizing a with
  | nil => rfl
  | cons b bs ih =>
      rw [Platform.storeEvents, List.countP_append, ih]
      split <;> rfl

theorem countP_transcript (output total bytesRead : Nat) (polls : List Poll) :
    (transcript p output total bytesRead polls).countP spiRegister =
      polls.length + (words polls).length := by
  induction polls generalizing bytesRead with
  | nil => rfl
  | cons poll polls ih =>
      have hstatus : ∀ status, spiRegister (.read32 SPI_STATUS status) = true := fun _ => rfl
      have hdata : ∀ value, spiRegister (.read32 SPI_DATA value) = true := fun _ => rfl
      cases poll with
      | wait status herror hempty =>
          rw [transcript, words, List.countP_cons_of_pos (hstatus status), ih, List.length_cons]
          omega
      | word status herror hready value =>
          rw [transcript, words, List.countP_cons_of_pos (hstatus status),
            List.countP_cons_of_pos (hdata value), List.countP_append, countP_storeEvents, ih,
            List.length_cons, List.length_cons]
          omega

theorem countP_statuses (statuses : List Word) :
    (statuses.map (MmioEvent.read32 SPI_STATUS)).countP spiRegister = statuses.length := by
  rw [List.countP_eq_length.mpr, List.length_map]
  intro e he
  rcases List.mem_map.mp he with ⟨w, _, hw⟩
  rw [← hw]
  rfl

/-- The polls for a word, and its read. -/
theorem wordsFor_accesses (n : Nat) :
    (n + 3) / 4 * (MAX_SPIN + 2) = wordsFor n * (MAX_SPIN + 1) + wordsFor n :=
  Nat.mul_succ _ _

/-- The polls and words of a transfer against its bound. -/
theorem polls_le {n polls ws : Nat} (hpolls : polls ≤ wordsFor n * (MAX_SPIN + 1))
    (hws : ws ≤ wordsFor n) : polls + ws ≤ (n + 3) / 4 * (MAX_SPIN + 2) := by
  rw [wordsFor_accesses]
  exact Nat.add_le_add hpolls hws

theorem readFlashWords_costs (output n : Nat) :
    Costs ((n + 3) / 4 * (MAX_SPIN + 2) + n + (MAX_SPIN + 1) + 2)
      (readFlashWords p.logged output n) := by
  intro s
  have h := readFlashWords_exchange p output n s
  generalize hrun : readFlashWords p.logged output n s = result at h
  cases h with
  | returned polls waits done s' count patience waiting patient finished progress =>
      have hlen := transcript_length p output n 0 polls
      have hpolls := polls_le patience (Nat.le_of_eq count)
      refine wp_of_ok hrun ?_
      simp only [Machine.accesses, progress.log, List.length_append, List.length_map,
        List.length_singleton]
      omega
  | recovered polls refused s₁ count patience progress =>
      have hlen := transcript_length p output n 0 polls
      have hsplit := wordsFor_accesses n
      refine wp_of_error hrun fun _ => ⟨.inr rfl, ?_⟩
      simp only [Machine.accesses, recoveryState, Platform.logged, progress.log,
        List.length_append, List.length_map, List.length_singleton]
      omega
  | faulted polls x s' unmapped reached progress =>
      exact wp_of_error hrun fun h => absurd rfl (h x)

theorem readFlash_costs (offset total : Word) (output : Nat) :
    Costs (flashAccesses total.toNat + total.toNat + 2)
      (readFlash p.logged offset total output) := by
  have hstart : Costs 4 (startFlashRead p.logged offset total) :=
    (writeRegister_costs p SPI_ADDR offset).bind fun _ =>
      (writeRegister_costs p SPI_LEN total).bind fun _ =>
        (writeRegister_costs p SPI_COMMAND SPI_CLEAR_DONE).bind fun _ =>
          writeRegister_costs p SPI_COMMAND SPI_START_READ
  refine (hstart.bind fun _ => readFlashWords_costs p output total.toNat).mono ?_
  unfold flashAccesses
  omega

/-- The register accesses that `read_flash` makes to the SPI block. -/
def Machine.spiAccesses (s : Logged δ) : Nat := s.dev.2.countP spiRegister

theorem startFlashRead_spi (offset total : Word) (s : Logged δ) :
    Wp (startFlashRead p.logged offset total) (fun _ s' => s'.spiAccesses = s.spiAccesses + 4)
      (fun _ _ => False) s := by
  refine wp_of_ok rfl ?_
  simp only [Machine.spiAccesses, Platform.logged, List.countP_append]
  rfl

theorem readFlash_spi (offset total : Word) (output : Nat) (s : Logged δ) :
    Wp (readFlash p.logged offset total output)
      (fun _ s' => s'.spiAccesses ≤ s.spiAccesses + flashAccesses total.toNat)
      (fun e s' => (∃ a, e = .fault a) ∨
        e = .recovery ∧ s'.spiAccesses ≤ s.spiAccesses + flashAccesses total.toNat) s := by
  refine (startFlashRead_spi p offset total s).bind ?_ fun _ _ h => h.elim
  intro _ s₁ hstart
  have h := readFlashWords_exchange p output total.toNat s₁
  generalize hrun : readFlashWords p.logged output total.toNat s₁ = result at h
  generalize total.toNat = n at *
  cases h with
  | returned polls waits done s' count patience waiting patient finished progress =>
      have hpolls := polls_le patience (Nat.le_of_eq count)
      refine wp_of_ok hrun ?_
      rw [Machine.spiAccesses, progress.log, List.countP_append, List.countP_append,
        countP_transcript, countP_statuses, List.length_append, List.length_singleton,
        flashAccesses]
      rw [Machine.spiAccesses, Machine.spiAccesses] at hstart
      rw [Machine.spiAccesses]
      omega
  | recovered polls refused s₂ count patience progress =>
      have hsplit := wordsFor_accesses n
      have hrecover : (recoveryState p.logged SR_LOAD_KERNEL s₂).spiAccesses =
          s₂.spiAccesses := by
        simp only [Machine.spiAccesses, recoveryState, Platform.logged, List.countP_append]
        rfl
      refine wp_of_error hrun (.inr ⟨rfl, ?_⟩)
      rw [hrecover, Machine.spiAccesses, progress.log, List.countP_append, List.countP_append,
        countP_transcript, countP_statuses, flashAccesses]
      rw [Machine.spiAccesses, Machine.spiAccesses] at hstart
      rw [Machine.spiAccesses]
      omega
  | faulted polls x s' unmapped reached progress => exact wp_of_error hrun (.inl ⟨x, rfl⟩)

/-! ## The stages -/

theorem loadMessage_costs (a n : Nat) : Costs n (loadMessage p.logged a n) := by
  induction n generalizing a with
  | zero => exact .pure []
  | succ n ih =>
      refine ((loadByte_costs p a).bind fun b => costs_get.bind fun s =>
        (ih (a + 1)).bind fun bs => .pure _).mono ?_
      omega

theorem sha256Hash_costs (data len digest : Nat) :
    Costs (len + 32) (sha256Hash p.logged data len digest) := by
  have hcosts : Costs (len + (0 + 32)) (sha256Hash p.logged data len digest) := by
    refine (loadMessage_costs p data len).bind fun bs => costs_get.bind fun s => ?_
    obtain ⟨ctx, hctx⟩ := Sha256.sha256Hash_digest (p.logged.frames.stale s.dev) bs
    have hstore := storeBytes_costs p digest (Fips180.sha256 bs)
    rw [Fips180.sha256_length] at hstore
    simp only [hctx]
    exact hstore.bind fun _ =>
      costs_modify (fun s => { s with mem := stackAfter p.logged ctx s }) fun _ => rfl
  rwa [Nat.zero_add] at hcosts

theorem checkManifestHeader_costs (manifest : Nat) :
    Costs 10 (checkManifestHeader p.logged manifest) :=
  (loadWord_costs p _).bind fun _ => (recoverIf_costs p _ _).bind fun _ =>
    (loadHalf_costs p _).bind fun _ => recoverIf_costs p _ _

theorem readOtpWords_costs (output i n : Nat) :
    Costs (5 * n) (readOtpWords p.logged output i n) := by
  induction n generalizing i with
  | zero => exact .pure ()
  | succ n ih =>
      have hword : ∀ word, Costs 4 (storeBytes p.logged (output + i) (leBytes word)) :=
        fun word => storeBytes_costs p _ (leBytes word)
      refine ((readRegister_costs p _).bind fun word =>
        (hword word).bind fun _ => ih (i + 4)).mono ?_
      omega

theorem checkPublicKey_costs : Costs 170 (checkPublicKey p.logged) :=
  (sha256Hash_costs p _ 32 _).bind fun _ => (readOtpWords_costs p _ 0 8).bind fun _ =>
    (sameBytes_costs p _ _ 32).bind fun _ => recoverIf_costs p _ _

theorem ed25519WriteWords_costs (data n : Nat) :
    Costs (5 * n) (ed25519WriteWords p.logged data n) := by
  induction n generalizing data with
  | zero => exact .pure ()
  | succ n ih =>
      refine ((loadWord_costs p data).bind fun word =>
        (writeRegister_costs p ED25519_DATA word).bind fun _ => ih (data + 4)).mono ?_
      omega

theorem pollVerdict_costs (spin : Nat) :
    Costs (MAX_SPIN - spin + 3) (pollVerdict p.logged spin) := by
  induction spin using pollVerdict.induct with
  | case1 spin ih =>
      have hrecover : Costs (MAX_SPIN - spin + 2)
          (enterRecovery p.logged SR_MANIFEST_SIGNATURE : Boot (δ × List MmioEvent) Unit) :=
        (enterRecovery_costs p _).mono (by omega)
      have hdone : Costs (MAX_SPIN - spin + 2)
          (pure () : Boot (δ × List MmioEvent) Unit) := (Costs.pure ()).mono (by omega)
      rw [pollVerdict]
      refine ((readRegister_costs p ED25519_STATUS).bind fun status =>
        hrecover.ite ((hdone.ite hrecover).ite ?_)).mono (by omega)
      by_cases hspin : MAX_SPIN < spin + 1
      · rw [if_pos hspin]
        exact hrecover
      · rw [if_neg hspin]
        exact (ih hspin).mono (by omega)

theorem checkManifestSignature_costs :
    Costs (MAX_SPIN + 245) (checkManifestSignature p.logged) := by
  refine ((writeRegister_costs p _ _).bind fun _ => (ed25519WriteWords_costs p _ 24).bind fun _ =>
    (ed25519WriteWords_costs p _ 16).bind fun _ => (ed25519WriteWords_costs p _ 8).bind fun _ =>
      (writeRegister_costs p _ _).bind fun _ => pollVerdict_costs p 0).mono ?_
  omega

theorem verifyPayload_costs (manifest kernelOutput : Nat) :
    Costs (2 ^ 32 + 102) (verifyPayload p.logged manifest kernelOutput) := by
  refine ((loadWord_costs p _).bind fun payloadSize =>
    ((sha256Hash_costs p kernelOutput payloadSize.toNat KERNEL_HASH_BUFFER).mono
      (show _ ≤ 2 ^ 32 + 32 by omega)).bind fun _ =>
      (sameBytes_costs p _ _ 32).bind fun _ => recoverIf_costs p _ _).mono ?_
  omega

theorem flashAccesses_mono {n m : Nat} (h : n ≤ m) : flashAccesses n ≤ flashAccesses m := by
  unfold flashAccesses
  have hmul : (n + 3) / 4 * (MAX_SPIN + 2) ≤ (m + 3) / 4 * (MAX_SPIN + 2) :=
    Nat.mul_le_mul_right _ (by omega)
  omega

theorem checkAndLoadKernel_costs (manifest : Nat) :
    Costs (flashAccesses (2 ^ 32) + 2 ^ 33 + 116) (checkAndLoadKernel p.logged manifest) := by
  have hflash : ∀ (payloadSize : Word) (output : Nat), Costs (flashAccesses (2 ^ 32) + 2 ^ 32 + 2)
      (readFlash p.logged KERNEL_OFFSET payloadSize output) := by
    intro payloadSize output
    have hmono := flashAccesses_mono (Nat.le_of_lt payloadSize.isLt)
    exact (readFlash_costs p KERNEL_OFFSET payloadSize output).mono (by omega)
  refine ((loadWord_costs p _).bind fun loadAddress => (loadWord_costs p _).bind fun payloadSize =>
    (recoverIf_costs p _ _).bind fun _ => (recoverIf_costs p _ _).bind fun _ =>
      (hflash payloadSize loadAddress.toNat).bind fun _ =>
        verifyPayload_costs p manifest loadAddress.toNat).mono ?_
  omega

theorem checkRollbackCounter_costs (manifest : Nat) :
    Costs 11 (checkRollbackCounter p.logged manifest) := by
  have hadvance : ∀ version, Costs 4 (advanceCounter p.logged version) := fun version =>
    (writeRegister64_costs p _ _).bind fun _ => (readRegister64_costs p _).bind fun _ =>
      recoverIf_costs p _ _
  exact (readRegister64_costs p _).bind fun counter => (loadWord_costs p _).bind fun version =>
    (recoverIf_costs p _ _).bind fun _ => (hadvance _).ite ((Costs.pure ()).mono (by omega))

theorem clearScratch_costs : Costs 800 (clearScratch p.logged) :=
  (clearBytes_costs p _ 96).bind fun _ => (clearBytes_costs p _ 64).bind fun _ =>
    (clearBytes_costs p _ 32).bind fun _ => (clearBytes_costs p _ 32).bind fun _ =>
      (clearBytes_costs p _ 32).bind fun _ => (clearBytes_costs p _ 32).bind fun _ =>
        clearBytes_costs p _ 512

theorem lockPmp_costs : Costs 4 (lockPmp p.logged) := by
  intro s
  refine wp_of_ok rfl ?_
  simp [Machine.accesses, Platform.logged]

theorem readBootParts_costs :
    Costs (flashAccesses 96 + flashAccesses 64 + flashAccesses 32 + 198)
      (readBootParts p.logged) := by
  refine ((readFlash_costs p MANIFEST_OFFSET MANIFEST_SIZE MANIFEST_BUFFER).bind fun _ =>
    (readFlash_costs p SIGNATURE_OFFSET SIGNATURE_SIZE SIGNATURE_BUFFER).bind fun _ =>
      readFlash_costs p PUBLIC_KEY_OFFSET PUBLIC_KEY_SIZE PUBLIC_KEY_BUFFER).mono ?_
  rw [show MANIFEST_SIZE.toNat = 96 from rfl, show SIGNATURE_SIZE.toNat = 64 from rfl,
    show PUBLIC_KEY_SIZE.toNat = 32 from rfl]
  omega

/-! ## The boot -/

/-- The accesses of a boot, for payloads of any size. -/
def bootAccesses : Nat :=
  flashAccesses 96 + flashAccesses 64 + flashAccesses 32 + flashAccesses (2 ^ 32) + MAX_SPIN +
    2 ^ 33 + 1554

theorem bootromMain_leaves : Leaves bootAccesses (bootromMain p.logged) := by
  have hjump : Leaves 0 (do jumpToKernel p.logged 0x80000000; halt) := by
    intro s
    have hrun : (do jumpToKernel p.logged 0x80000000; halt) s = .error .kernel
        { s with
          mepc := 0x80000000, mstatus := s.mstatus ||| 0x1800, a0 := p.hartid, a1 := 0 } := rfl
    exact wp_of_error hrun fun _ => ⟨.inl rfl, Nat.le_refl _⟩
  refine ((readBootParts_costs p).leaves fun _ => (checkManifestHeader_costs p _).leaves fun _ =>
    (checkPublicKey_costs p).leaves fun _ => (checkManifestSignature_costs p).leaves fun _ =>
      (checkAndLoadKernel_costs p _).leaves fun _ =>
        (checkRollbackCounter_costs p _).leaves fun _ => (clearScratch_costs p).leaves fun _ =>
          (lockPmp_costs p).leaves fun _ => hjump).mono ?_
  unfold bootAccesses
  omega

/-- Against peripherals that answer anything a boot ends in the kernel or in recovery, unless a
memory access faults, after a bounded number of accesses; so does each `read_flash`. -/
theorem boot_terminates (p : Platform δ) (s : Logged δ) :
    (∃ e s', bootromMain p.logged s = .error e s' ∧ ((∀ a, e ≠ .fault a) →
      (e = .kernel ∨ e = .recovery) ∧ s'.accesses ≤ s.accesses + bootAccesses)) ∧
    ∀ (offset total : Word) (output : Nat),
      (∃ s', readFlash p.logged offset total output s = .ok () s' ∧ s'.spiAccesses ≤
        s.spiAccesses + (4 + (total.toNat + 3) / 4 * (MAX_SPIN + 2) + (MAX_SPIN + 1))) ∨
      (∃ s', readFlash p.logged offset total output s = .error .recovery s' ∧ s'.spiAccesses ≤
        s.spiAccesses + (4 + (total.toNat + 3) / 4 * (MAX_SPIN + 2) + (MAX_SPIN + 1))) ∨
      ∃ a s', readFlash p.logged offset total output s = .error (.fault a) s' := by
  refine ⟨?_, ?_⟩
  · have h := bootromMain_leaves p
    cases hrun : bootromMain p.logged s with
    | ok a s' => exact (h.ok hrun).elim
    | error e s' => exact ⟨e, s', rfl, h.error hrun⟩
  · intro offset total output
    have h := readFlash_spi p offset total output s
    cases hrun : readFlash p.logged offset total output s with
    | ok a s' => exact .inl ⟨s', rfl, h.ok hrun⟩
    | error e s' =>
        rcases h.error hrun with ⟨a, he⟩ | ⟨he, hle⟩
        · rw [he]
          exact .inr (.inr ⟨a, s', rfl⟩)
        · rw [he]
          exact .inr (.inl ⟨s', rfl, hle⟩)

end SecureBoot.Bootrom
