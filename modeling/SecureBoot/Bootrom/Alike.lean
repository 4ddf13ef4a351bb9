import SecureBoot.Base.Relational
import SecureBoot.Bootrom.Transfers

/-!
# One boot on two chips

Chips that differ in their SPI block only. If both blocks serve the same image, each at its own
pace, BootROM cannot tell them apart: it ends with the same exit, memory and registers. So the real
block may be taken for the ideal flash, and only the image in the flash matters.
-/

namespace SecureBoot.Bootrom

open Words Exec Relational

variable {σ τ : Type}

/-- Equal up to the state of the SPI block. -/
structure Alike (s : Machine (Devices σ)) (t : Machine (Devices τ)) : Prop where
  mem : s.mem = t.mem
  dev : Soc.others s.dev = Soc.others t.dev
  core : s.core = t.core

/-- The same chip with another SPI block; what compiled code leaves on the stack does not depend
on it. -/
structure Variant (soc : Soc σ) (soc' : Soc τ) : Prop where
  otpHash : soc.otpHash = soc'.otpHash
  script : soc.script = soc'.script
  hartid : soc.hartid = soc'.hartid
  stale : ∀ d d', Soc.others d = Soc.others d' → soc.frames.stale d = soc'.frames.stale d'
  during : ∀ d d', Soc.others d = Soc.others d' → soc.frames.during d = soc'.frames.during d'
  after : ∀ d d', Soc.others d = Soc.others d' → soc.frames.after d = soc'.frames.after d'

/-- No peripheral window begins where DRAM ends. -/
theorem inWindows_dram {a : Nat} (h₁ : 0x80000000 ≤ a) (h₂ : a ≤ 0x90000000) :
    inWindows a = false := by
  rw [← Bool.not_eq_true]
  intro hw
  simp only [inWindows, Bool.or_eq_true, inWindow_iff, OTP_BASE, ROLLBACK_COUNTER_BASE, SPI_BASE,
    BOOT_STATUS_REG, ED25519_VERIFY_BASE] at hw
  omega

/-- Going upwards from DRAM, the first byte outside is not in a window: an access faults there. -/
theorem inWindows_succ {a : Nat} (h : inDram a = true) : inWindows (a + 1) = false := by
  have hdram := (Soc.inDram_iff a).mp h
  exact inWindows_dram (by omega) (by omega)

variable {soc : Soc σ} {soc' : Soc τ} (hsoc : Variant soc soc')

/-! ## Memory -/

/-- Both wrote the same bytes, and the next one is not in a window either. -/
structure Stored (a : Nat) (bs : List Byte) (s s' : Machine (Devices σ))
    (t t' : Machine (Devices τ)) : Prop where
  left : s' = { s with mem := s.mem.write a bs }
  right : t' = { t with mem := t.mem.write a bs }
  next : inWindows (a + bs.length) = false

theorem Stored.alike {a : Nat} {bs : List Byte} {s s' : Machine (Devices σ)}
    {t t' : Machine (Devices τ)} (h : Stored a bs s s' t t') (hst : Alike s t) : Alike s' t' := by
  rw [h.left, h.right]
  exact ⟨congrArg (fun mem => mem.write a bs) hst.mem, hst.dev, hst.core⟩

/-- A store that does not begin in a window faults on both or on neither. -/
theorem storeBytes_alike (a : Nat) (bs : List Byte) (ha : inWindows a = false)
    {s : Machine (Devices σ)} {t : Machine (Devices τ)} (h : Alike s t) :
    Match (fun s' t' => Stored a bs s s' t t') Alike
      (storeBytes soc.platform a bs s) (storeBytes soc'.platform a bs t) := by
  induction bs generalizing a s t with
  | nil => exact .ok () s t ⟨by rw [Memory.write_nil], by rw [Memory.write_nil], ha⟩
  | cons b bs ih =>
      cases hram : inDram a with
      | true =>
          rw [storeBytes, storeBytes, bind_of_ok (storeByte_ram soc.platform a b s hram),
            bind_of_ok (storeByte_ram soc'.platform a b t hram)]
          have hstored : Alike { s with mem := s.mem.store a b }
              { t with mem := t.mem.store a b } :=
            ⟨congrArg (fun mem : Memory => mem.store a b) h.mem, h.dev, h.core⟩
          refine (ih (a + 1) (inWindows_succ hram) hstored).mono ?_ fun _ _ h => h
          intro s' t' hst
          rcases hst with ⟨hs, ht, hnext⟩
          refine ⟨by rw [hs, Memory.write_cons], by rw [ht, Memory.write_cons], ?_⟩
          rwa [List.length_cons, Nat.add_comm bs.length, ← Nat.add_assoc]
      | false =>
          rw [storeBytes, storeBytes,
            bind_of_error (storeByte_fault soc.platform a b s hram ha),
            bind_of_error (storeByte_fault soc'.platform a b t hram ha)]
          exact .error _ s t h

include hsoc

/-- So does a message that is read upwards from there, however long it is. -/
theorem loadMessage_agree (a n : Nat) (ha : inWindows a = false) :
    Agree Alike (loadMessage soc.platform a n) (loadMessage soc'.platform a n) := by
  induction n generalizing a with
  | zero => exact .pure []
  | succ n ih =>
      intro s t h
      cases hram : inDram a with
      | true =>
          rw [loadMessage, loadMessage, bind_of_ok (loadByte_ram _ a s hram),
            bind_of_ok (loadByte_ram _ a t hram), bind_of_ok (get_apply s),
            bind_of_ok (get_apply t), h.mem]
          show Match _ _ _ ((loadMessage soc'.platform (a + 1) n >>= fun bs =>
            pure ((if inFrame a then soc'.frames.during t.dev a else t.mem a) :: bs)) t)
          rw [← hsoc.during _ _ h.dev]
          exact (ih (a + 1) (inWindows_succ hram)).bind (fun bs => .pure _) s t h
      | false =>
          rw [loadMessage, loadMessage, bind_of_error (loadByte_fault _ a s hram ha),
            bind_of_error (loadByte_fault _ a t hram ha)]
          exact .error _ s t h

theorem sha256Hash_agree (data len digest : Nat) (hdata : inWindows data = false)
    (hdigest : inWindows digest = false) :
    Agree Alike (sha256Hash soc.platform data len digest)
      (sha256Hash soc'.platform data len digest) := by
  intro s t h
  refine (loadMessage_agree hsoc data len hdata s t h).bind ?_
  intro bs s₁ t₁ _ _ h₁
  obtain ⟨ctx, hctx⟩ := Sha256.sha256Hash_digest (soc.frames.stale s₁.dev) bs
  have hctx' : Sha256.sha256Hash (soc'.frames.stale t₁.dev) bs = some (ctx, Fips180.sha256 bs) := by
    rw [← hsoc.stale _ _ h₁.dev]
    exact hctx
  rw [bind_of_ok (get_apply s₁), bind_of_ok (get_apply t₁)]
  simp only [show soc.platform.frames = soc.frames from rfl,
    show soc'.platform.frames = soc'.frames from rfl, hctx, hctx']
  refine (storeBytes_alike digest _ hdigest h₁).bind ?_
  intro _ s₂ t₂ _ _ hstored
  have h₂ := hstored.alike h₁
  refine .of_ok (modify_apply _ s₂) (modify_apply _ t₂) ⟨?_, h₂.dev, h₂.core⟩
  show stackAfter soc.platform ctx s₂ = stackAfter soc'.platform ctx t₂
  rw [stackAfter, stackAfter, h₂.mem]
  show Memory.write (fun a => if inFrame a then soc.frames.after s₂.dev a else t₂.mem a) _ _ =
    Memory.write (fun a => if inFrame a then soc'.frames.after t₂.dev a else t₂.mem a) _ _
  rw [hsoc.after _ _ h₂.dev]

/-! ## Recovery and the stages -/

theorem recoveryState_alike (reason : Word) {s : Machine (Devices σ)} {t : Machine (Devices τ)}
    (h : Alike s t) :
    Alike (recoveryState soc.platform reason s) (recoveryState soc'.platform reason t) := by
  rcases h with ⟨hmem, hdev, hcore⟩
  obtain ⟨hed, hdev⟩ := Prod.mk.inj hdev
  obtain ⟨hcounter, hstatus⟩ := Prod.mk.inj hdev
  obtain ⟨_, hcore⟩ := Prod.mk.inj hcore
  obtain ⟨_, hcore⟩ := Prod.mk.inj hcore
  obtain ⟨hmstatus, hcore⟩ := Prod.mk.inj hcore
  obtain ⟨_, hcore⟩ := Prod.mk.inj hcore
  obtain ⟨_, hpmp⟩ := Prod.mk.inj hcore
  refine ⟨hmem, ?_, ?_⟩
  · show (s.dev.ed25519, s.dev.counter, s.dev.status ||| reason) =
      (t.dev.ed25519, t.dev.counter, t.dev.status ||| reason)
    rw [hed, hcounter, hstatus]
  · show (MRET_TRAP_EXIT, RECOVERY_ENTRY, s.mstatus, soc.hartid, 0, s.pmp) =
      (MRET_TRAP_EXIT, RECOVERY_ENTRY, t.mstatus, soc'.hartid, 0, t.pmp)
    rw [hmstatus, hpmp, hsoc.hartid]

theorem recoverIf_agree (failed : Bool) (reason : Word) :
    Agree Alike (recoverIf soc.platform failed reason) (recoverIf soc'.platform failed reason) := by
  intro s t h
  cases failed with
  | true => exact .error _ _ _ (recoveryState_alike hsoc reason h)
  | false => exact .ok _ _ _ h

theorem checkPublicKey_agree :
    Agree Alike (checkPublicKey soc.platform) (checkPublicKey soc'.platform) := by
  refine (sha256Hash_agree hsoc PUBLIC_KEY_BUFFER 32 PUBLIC_KEY_HASH
    (inWindows_dram (by decide) (by decide)) (inWindows_dram (by decide) (by decide))).bind ?_
  intro _ s t h
  rw [bind_of_ok (readOtpHash_eq soc OTP_HASH_BUFFER s (soc.bufferRam _ _)),
    bind_of_ok (readOtpHash_eq soc' OTP_HASH_BUFFER t (soc'.bufferRam _ _)), hsoc.otpHash, h.mem,
    bind_of_ok (sameBytes_ram _ _ _ OTP_HASH_SIZE _ (soc.bufferRam _ _) (soc.bufferRam _ _)),
    bind_of_ok (sameBytes_ram _ _ _ OTP_HASH_SIZE _ (soc'.bufferRam _ _) (soc'.bufferRam _ _))]
  exact recoverIf_agree hsoc _ _ _ _ ⟨rfl, h.dev, h.core⟩

/-- The verifier takes the same word on both. -/
theorem verifier_alike (e : Ed25519.Access) {s : Machine (Devices σ)} {t : Machine (Devices τ)}
    (h : Alike s t) :
    Alike { s with dev := { s.dev with ed25519 := Ed25519.step soc.script s.dev.ed25519 e } }
      { t with dev := { t.dev with ed25519 := Ed25519.step soc'.script t.dev.ed25519 e } } := by
  rcases h with ⟨hmem, hdev, hcore⟩
  obtain ⟨hed, hdev⟩ := Prod.mk.inj hdev
  obtain ⟨hcounter, hstatus⟩ := Prod.mk.inj hdev
  refine ⟨hmem, ?_, hcore⟩
  simp only [Soc.others, hed, hcounter, hstatus, hsoc.script]

theorem ed25519WriteWords_agree (data n : Nat) (h₁ : BOOT_SCRATCH_BASE ≤ data)
    (h₂ : data + 4 * n ≤ BOOT_SCRATCH_BASE + 0x10000) :
    Agree Alike (ed25519WriteWords soc.platform data n)
      (ed25519WriteWords soc'.platform data n) := by
  induction n generalizing data with
  | zero => exact .pure ()
  | succ n ih =>
      intro s t h
      rw [ed25519WriteWords, ed25519WriteWords,
        bind_of_ok (loadWord_ram _ data s (soc.bufferRam data 4 ⟨h₁, by omega⟩)),
        bind_of_ok (loadWord_ram _ data t (soc'.bufferRam data 4 ⟨h₁, by omega⟩)), h.mem]
      exact ih (data + 4) (by omega) (by omega) _ _
        (verifier_alike hsoc (.data (t.mem.word data)) h)

theorem pollVerdict_agree (spin : Nat) :
    Agree Alike (pollVerdict soc.platform spin) (pollVerdict soc'.platform spin) := by
  induction spin using pollVerdict.induct with
  | case1 spin ih =>
      intro s t h
      have hed : s.dev.ed25519 = t.dev.ed25519 := (Prod.mk.inj h.dev).1
      have hs : readRegister soc.platform ED25519_STATUS s = .ok s.dev.ed25519.status s := rfl
      have ht : readRegister soc'.platform ED25519_STATUS t = .ok t.dev.ed25519.status t := rfl
      have hrecover : Agree (α := Unit) Alike (enterRecovery soc.platform SR_MANIFEST_SIGNATURE)
          (enterRecovery soc'.platform SR_MANIFEST_SIGNATURE) :=
        fun s t h => .error _ _ _ (recoveryState_alike hsoc SR_MANIFEST_SIGNATURE h)
      rw [pollVerdict.eq_def soc.platform, pollVerdict.eq_def soc'.platform, bind_of_ok hs,
        bind_of_ok ht, hed]
      refine Agree.ite hrecover (.ite (.ite (.pure ()) hrecover) ?_) s t h
      by_cases hspin : MAX_SPIN < spin + 1
      · rw [if_pos hspin, if_pos hspin]
        exact hrecover
      · rw [if_neg hspin, if_neg hspin]
        exact ih hspin

theorem writeCmd_agree (value : Word) :
    Agree Alike (writeRegister soc.platform ED25519_CMD value)
      (writeRegister soc'.platform ED25519_CMD value) :=
  fun _ _ h => .ok _ _ _ (verifier_alike hsoc (.cmd value) h)

theorem checkManifestSignature_agree :
    Agree Alike (checkManifestSignature soc.platform) (checkManifestSignature soc'.platform) :=
  (writeCmd_agree hsoc ED25519_CMD_CLEAR).bind fun _ =>
    (ed25519WriteWords_agree hsoc MANIFEST_BUFFER 24 (by decide) (by decide)).bind fun _ =>
      (ed25519WriteWords_agree hsoc SIGNATURE_BUFFER 16 (by decide) (by decide)).bind fun _ =>
        (ed25519WriteWords_agree hsoc PUBLIC_KEY_BUFFER 8 (by decide) (by decide)).bind fun _ =>
          (writeCmd_agree hsoc ED25519_CMD_START).bind fun _ => pollVerdict_agree hsoc 0

theorem verifyPayload_alike (load : Nat) (hload : inWindows load = false)
    {s : Machine (Devices σ)} {t : Machine (Devices τ)} (h : Alike s t) :
    Match Alike Alike (verifyPayload soc.platform MANIFEST_BUFFER load s)
      (verifyPayload soc'.platform MANIFEST_BUFFER load t) := by
  rw [verifyPayload, verifyPayload, bind_of_ok (loadWord_ram _ _ s (soc.bufferRam _ _)),
    bind_of_ok (loadWord_ram _ _ t (soc'.bufferRam _ _)), ← h.mem]
  refine (sha256Hash_agree hsoc load _ KERNEL_HASH_BUFFER hload
    (inWindows_dram (by decide) (by decide)) s t h).bind ?_
  intro _ s₁ t₁ _ _ h₁
  rw [bind_of_ok (sameBytes_ram _ _ _ SHA256_DIGEST_SIZE s₁ (soc.bufferRam _ _)
      (soc.bufferRam _ _)),
    bind_of_ok (sameBytes_ram _ _ _ SHA256_DIGEST_SIZE t₁ (soc'.bufferRam _ _)
      (soc'.bufferRam _ _)), h₁.mem]
  exact recoverIf_agree hsoc _ _ _ _ h₁

theorem afterLoad_agree :
    Agree Alike (afterLoad soc.platform) (afterLoad soc'.platform) := by
  intro s t h
  obtain ⟨hed, hdev⟩ := Prod.mk.inj h.dev
  obtain ⟨hcounter, hstatus⟩ := Prod.mk.inj hdev
  by_cases hversion : (Manifest.ofMem s.mem).version < s.dev.counter
  · have hversion' := hversion
    rw [h.mem, hcounter] at hversion'
    exact .of_error (afterLoad_refuses soc s hversion) (afterLoad_refuses soc' t hversion')
      (recoveryState_alike hsoc _ h)
  · have hversion' := hversion
    rw [h.mem, hcounter] at hversion'
    refine .of_error (afterLoad_accepts soc s (BitVec.not_lt.mp hversion))
      (afterLoad_accepts soc' t (BitVec.not_lt.mp hversion')) ⟨?_, ?_, ?_⟩
    · rw [kernelState_mem, kernelState_mem, h.mem]
    · simp only [Soc.others, kernelState, h.mem, hed, hcounter, hstatus]
    · obtain ⟨_, hcore⟩ := Prod.mk.inj h.core
      obtain ⟨_, hcore⟩ := Prod.mk.inj hcore
      obtain ⟨hmstatus, hcore⟩ := Prod.mk.inj hcore
      obtain ⟨_, hcore⟩ := Prod.mk.inj hcore
      obtain ⟨_, hpmp⟩ := Prod.mk.inj hcore
      simp only [Machine.core, kernelState, hmstatus, hpmp, hsoc.hartid]

omit hsoc

/-! ## Reads from two ports -/

/-- The same machine after the SPI block has moved. -/
def withSpi (q : σ) (s : Machine (Devices σ)) : Machine (Devices σ) :=
  { s with dev := { s.dev with spi := q } }

theorem Alike.withSpi {s : Machine (Devices σ)} {t : Machine (Devices τ)} (h : Alike s t) (q : σ)
    (r : τ) : Alike (withSpi q s) (withSpi r t) :=
  ⟨h.mem, h.dev, h.core⟩

/-- The data phase on ports that deliver the same bytes, each after its own waits. -/
theorem pollData_alike {output total bytesRead n : Nat} {bs : List Byte} {q q' : σ} {r r' : τ}
    (hn : bytesRead + n = total) (hplain : inWindows (output + bytesRead) = false)
    (hq : soc.port.Delivers MAX_SPIN n q bs q') (hr : soc'.port.Delivers MAX_SPIN n r bs r')
    {s : Machine (Devices σ)} {t : Machine (Devices τ)} (h : Alike s t) (hs : s.dev.spi = q)
    (ht : t.dev.spi = r) :
    Match (fun s' t' => Stored (output + bytesRead) bs (withSpi q' s) s' (withSpi r' t) t') Alike
      (pollData soc.platform output total bytesRead 0 s)
      (pollData soc'.platform output total bytesRead 0 t) := by
  induction hq generalizing bytesRead r s t with
  | nil q =>
      cases hr with
      | nil =>
          subst hs ht
          rw [pollData.eq_def soc.platform, pollData.eq_def soc'.platform, if_neg (by omega),
            if_neg (by omega)]
          refine .ok () s t ⟨?_, ?_, hplain⟩
          · rw [Memory.write_nil]
            rfl
          · rw [Memory.write_nil]
            rfl
      | word _ _ _ _ _ hpos => exact absurd hpos (by omega)
  | word n q q₁ q' bs hpos hpoll hrest ih =>
      generalize hbytes : (leBytes (soc.port.read 0x10 q₁).1).take n ++ bs = out at hr
      cases hr with
      | nil => exact absurd hpos (by omega)
      | word _ _ r₁ _ bs' _ hpoll' hrest' =>
          subst hs ht
          have hlen : ((leBytes (soc.port.read 0x10 q₁).1).take n).length =
              ((leBytes (soc'.port.read 0x10 r₁).1).take n).length := by
            rw [leBytes_take_length, leBytes_take_length]
          obtain ⟨hword, hrestEq⟩ := List.append_inj hbytes hlen
          subst hrestEq
          have htake : total - bytesRead = n := by omega
          have hread := (soc.embeds s.dev).read 0x10 q₁ (by decide)
          have hread' := (soc'.embeds t.dev).read 0x10 r₁ (by decide)
          rw [pollData_answers soc.platform output total bytesRead 0 MAX_SPIN s _ (by omega)
              (by omega) (hpoll.lift (soc.embeds s.dev)),
            pollData_answers soc'.platform output total bytesRead 0 MAX_SPIN t _ (by omega)
              (by omega) (hpoll'.lift (soc'.embeds t.dev)),
            bind_of_ok (readData_eq soc.platform _), bind_of_ok (readData_eq soc'.platform _)]
          simp only [hread, hread', htake, ← hword]
          have hmoved := h.withSpi (soc.port.read 0x10 q₁).2 (soc'.port.read 0x10 r₁).2
          refine (storeBytes_alike (output + bytesRead) _ hplain hmoved).bind ?_
          intro _ s₁ t₁ _ _ hstored
          have hnext := hstored.alike hmoved
          rcases hstored with ⟨rfl, rfl, hwindow⟩
          rw [leBytes_take_length, Nat.add_assoc] at hwindow
          have hn' : bytesRead + min 4 n + (n - 4) = total := by omega
          refine (ih hn' hwindow hrest' hnext rfl rfl).mono ?_ fun _ _ h => h
          intro s₂ t₂ h₂
          rcases h₂ with ⟨hs₂, ht₂, hlast⟩
          refine ⟨?_, ?_, ?_⟩
          · rw [hs₂, Memory.write_append, leBytes_take_length, Nat.add_assoc]
            rfl
          · rw [ht₂, Memory.write_append, leBytes_take_length, Nat.add_assoc]
            rfl
          · rwa [List.length_append, leBytes_take_length, ← Nat.add_assoc, Nat.add_assoc output]

theorem readFlash_alike {offset total : Word} {output : Nat} {bs : List Byte} {q' : σ} {r' : τ}
    {s : Machine (Devices σ)} {t : Machine (Devices τ)} (h : Alike s t)
    (hplain : inWindows output = false)
    (hs : soc.port.Serves MAX_SPIN offset total s.dev.spi bs q')
    (ht : soc'.port.Serves MAX_SPIN offset total t.dev.spi bs r') :
    Match (fun s' t' => Stored output bs (withSpi q' s) s' (withSpi r' t) t') Alike
      (readFlash soc.platform offset total output s)
      (readFlash soc'.platform offset total output t) := by
  obtain ⟨q₁, hdata, hdone⟩ := hs
  obtain ⟨r₁, hdata', hdone'⟩ := ht
  rw [readFlash, readFlash, bind_of_ok (startFlashRead_eq soc.platform offset total s),
    bind_of_ok (startFlashRead_eq soc'.platform offset total t), readFlashWords, readFlashWords]
  have hstart := h.withSpi (soc.port.start offset total s.dev.spi)
    (soc'.port.start offset total t.dev.spi)
  have hfirst : inWindows (output + 0) = false := hplain
  refine (pollData_alike (by omega) hfirst hdata hdata' hstart rfl rfl).bind ?_
  intro _ s₁ t₁ _ _ hstored
  rcases hstored with ⟨rfl, rfl, hnext⟩
  exact .of_ok (pollDone_answers soc.platform 0 MAX_SPIN _ _ (by omega)
      (hdone.lift (soc.embeds s.dev)))
    (pollDone_answers soc'.platform 0 MAX_SPIN _ _ (by omega) (hdone'.lift (soc'.embeds t.dev)))
    ⟨rfl, rfl, hnext⟩

/-! ## The whole run -/

/-- A payload that passes the guards does not begin in a peripheral window. -/
def Image.PlainLoad (I : Image) : Prop :=
  ¬ LoadRefused I.manifest → inWindows I.manifest.loadAddress = false

/-- The payload is there when Stage 3 asks for it. -/
def Image.PayloadServed (I : Image) (soc : Soc σ) (q : σ) : Prop :=
  ¬ LoadRefused I.manifest → ∃ q', soc.port.Serves MAX_SPIN KERNEL_OFFSET
    (I.manifest.word PAYLOAD_SIZE) q I.payload q'

theorem checkPublicKey_ok {s s' : Machine (Devices σ)}
    (h : checkPublicKey soc.platform s = .ok () s') :
    KeyOk soc s.mem ∧ Memory.ChangedOnly KeyScratch s.mem s'.mem ∧ s'.dev = s.dev := by
  obtain ⟨mem, hmem, heq⟩ := checkPublicKey_eq soc s
  rw [heq] at h
  by_cases hkey : Fips180.sha256 (s.mem.read PUBLIC_KEY_BUFFER 32) = soc.otpHash.toList
  · rw [if_pos hkey] at h
    cases h
    exact ⟨hkey, hmem, rfl⟩
  · rw [if_neg hkey] at h
    cases h

theorem checkManifestSignature_ok {s s' : Machine (Devices σ)}
    (h : checkManifestSignature soc.platform s = .ok () s') :
    SignatureOk soc s.mem ∧ s'.mem = s.mem ∧ s'.dev.spi = s.dev.spi := by
  obtain ⟨v, heq⟩ := checkManifestSignature_eq soc s
  rw [heq] at h
  by_cases hsig : soc.script (stagedFiles s.mem) = true
  · rw [if_pos hsig] at h
    cases h
    exact ⟨hsig, rfl, rfl⟩
  · rw [if_neg hsig] at h
    cases h

include hsoc

theorem checkAndLoadKernel_alike (I : Image) {s : Machine (Devices σ)} {t : Machine (Devices τ)}
    (h : Alike s t) (hman : Manifest.ofMem s.mem = I.manifest) (hplain : I.PlainLoad)
    (hs : I.PayloadServed soc s.dev.spi) (ht : I.PayloadServed soc' t.dev.spi) :
    Match Alike Alike (checkAndLoadKernel soc.platform MANIFEST_BUFFER s)
      (checkAndLoadKernel soc'.platform MANIFEST_BUFFER t) := by
  have hman' : Manifest.ofMem t.mem = I.manifest := by rw [← h.mem, hman]
  by_cases hguard : LoadRefused I.manifest
  · exact .of_error (checkAndLoadKernel_refused _ soc.scratchRam s (by rwa [hman]))
      (checkAndLoadKernel_refused _ soc'.scratchRam t (by rwa [hman']))
      (recoveryState_alike hsoc _ h)
  rcases hs hguard with ⟨q', hserves⟩
  rcases ht hguard with ⟨r', hserves'⟩
  rw [checkAndLoadKernel_load soc s (by rwa [hman]),
    checkAndLoadKernel_load soc' t (by rwa [hman']), hman, hman']
  refine (readFlash_alike h (hplain hguard) hserves hserves').bind ?_
  intro _ s₁ t₁ _ _ hstored
  exact verifyPayload_alike hsoc _ (hplain hguard) (hstored.alike (h.withSpi q' r'))

/-- Two chips that differ in the SPI block, and whose blocks serve the same image, go through the
same boot: the same exit, memory, registers and verifier, whatever either block makes BootROM
wait. -/
theorem bootromMain_alike (I : Image) (s : Machine (Devices σ)) (t : Machine (Devices τ))
    (h : Alike s t) (hs : I.ServedBy soc s.dev.spi) (ht : I.ServedBy soc' t.dev.spi)
    (hplain : I.Verified soc → I.PlainLoad) :
    Match Alike Alike (bootromMain soc.platform s) (bootromMain soc'.platform t) := by
  rcases hs with ⟨_, _, q, hman, hsig, hkey, hpayload⟩
  rcases ht with ⟨_, _, r, hman', hsig', hkey', hpayload'⟩
  have hparts : Alike (withParts I q s) (withParts I r t) :=
    ⟨congrArg I.partsMem h.mem, h.dev, h.core⟩
  have hofMem := I.ofMem_partsMem s.mem
  have hofMem' := I.ofMem_partsMem t.mem
  rw [bootromMain_eq, bootromMain_eq,
    bind_of_ok (readBootParts_serves soc I s _ _ q hman hsig hkey),
    bind_of_ok (readBootParts_serves soc' I t _ _ r hman' hsig' hkey'), afterParts, afterParts]
  by_cases hheader : I.manifest.HeaderOk
  case neg =>
    have hrefused : ¬ (Manifest.ofMem (withParts I q s).mem).HeaderOk := by rwa [withParts, hofMem]
    have hrefused' : ¬ (Manifest.ofMem (withParts I r t).mem).HeaderOk := by
      rwa [withParts, hofMem']
    rw [bind_of_error (checkManifestHeader_refuses soc _ hrefused),
      bind_of_error (checkManifestHeader_refuses soc' _ hrefused')]
    exact .error _ _ _ (recoveryState_alike hsoc _ hparts)
  have haccepted : (Manifest.ofMem (withParts I q s).mem).HeaderOk := by rwa [withParts, hofMem]
  have haccepted' : (Manifest.ofMem (withParts I r t).mem).HeaderOk := by rwa [withParts, hofMem']
  rw [bind_of_ok (checkManifestHeader_accepts soc _ haccepted),
    bind_of_ok (checkManifestHeader_accepts soc' _ haccepted')]
  refine (checkPublicKey_agree hsoc _ _ hparts).bind ?_
  intro _ s₁ t₁ hs₁ ht₁ h₁
  rcases checkPublicKey_ok hs₁ with ⟨hkeyOk, hmem₁, hdev₁⟩
  refine (checkManifestSignature_agree hsoc _ _ h₁).bind ?_
  intro _ s₂ t₂ hs₂ ht₂ h₂
  rcases checkManifestSignature_ok hs₂ with ⟨hsigOk, hmem₂, hspi₂⟩
  have hverified : I.Verified soc := by
    refine ⟨hheader, (I.keyOk_partsMem soc s.mem).mp hkeyOk, ?_⟩
    rw [SignatureOk, stagedFiles_kept hmem₁] at hsigOk
    exact (I.signatureOk_partsMem soc s.mem).mp hsigOk
  have hverified' : I.Verified soc' := by
    rcases hverified with ⟨hheader, hkeyOk, hsigOk⟩
    refine ⟨hheader, ?_, ?_⟩
    · rw [Image.KeyOk, ← hsoc.otpHash]
      exact hkeyOk
    · rw [Image.SignatureOk, ← hsoc.script]
      exact hsigOk
  have hspi : s₂.dev.spi = q := by rw [hspi₂, hdev₁, withParts]
  have hspi' : t₂.dev.spi = r := by
    rw [(checkManifestSignature_ok ht₂).2.2, (checkPublicKey_ok ht₁).2.2, withParts]
  have hman₂ : Manifest.ofMem s₂.mem = I.manifest := by
    rw [hmem₂, manifest_kept hmem₁]
    exact hofMem
  refine (checkAndLoadKernel_alike hsoc I h₂ hman₂ (hplain hverified) ?_ ?_).bind ?_
  · rw [hspi]
    exact hpayload hverified
  · rw [hspi']
    exact hpayload' hverified'
  · intro _ s₃ t₃ _ _ h₃
    exact afterLoad_agree hsoc s₃ t₃ h₃

omit hsoc

/-! ## The image a flash holds -/

/-- The parts at their offsets, with as much payload as the manifest there says. -/
def Image.ofFlash (flash : Memory) : Image where
  manifest := ⟨flash.read 0 96, Memory.read_length _ _ _⟩
  signature := flash.read 0x60 64
  publicKey := flash.read 0xA0 32
  payload := flash.read 0xC0 (Manifest.payloadSize ⟨flash.read 0 96, Memory.read_length _ _ _⟩)
  signature_length := Memory.read_length _ _ _
  publicKey_length := Memory.read_length _ _ _

theorem Image.ofFlash_length (flash : Memory) :
    (Image.ofFlash flash).payload.length = (Image.ofFlash flash).manifest.payloadSize :=
  Memory.read_length _ _ _

/-- Written out again it is the flash, as far as it goes. -/
theorem Image.flash_ofFlash (flash : Memory) (a : Nat)
    (ha : a < 0xC0 + (Image.ofFlash flash).manifest.payloadSize) :
    (Image.ofFlash flash).flash a = flash a := by
  generalize hn : (Image.ofFlash flash).manifest.payloadSize = n at ha
  have hwhole : (Image.ofFlash flash).manifest.bytes ++ (Image.ofFlash flash).signature ++
      (Image.ofFlash flash).publicKey ++ (Image.ofFlash flash).payload =
      flash.read 0 (96 + 64 + 32 + n) := by
    rw [Memory.read_add, Memory.read_add, Memory.read_add, ← hn]
    rfl
  rw [Image.flash, hwhole, Memory.write_apply_of_inside _ _ _ _ (Nat.zero_le a)
    (by rw [Memory.read_length]; omega), Nat.sub_zero, Memory.read_getD _ _ _ _ (by omega),
    Nat.zero_add]

theorem Image.ofFlash_ideal (soc : Soc IdealFlash) (flash : Memory)
    (hport : soc.port = IdealFlash.port flash) (q : IdealFlash) :
    (Image.ofFlash flash).ServedBy soc q := by
  rcases IdealFlash.serves flash MAX_SPIN MANIFEST_OFFSET MANIFEST_SIZE q with ⟨q₁, h₁⟩
  rcases IdealFlash.serves flash MAX_SPIN SIGNATURE_OFFSET SIGNATURE_SIZE q₁ with ⟨q₂, h₂⟩
  rcases IdealFlash.serves flash MAX_SPIN PUBLIC_KEY_OFFSET PUBLIC_KEY_SIZE q₂ with ⟨q₃, h₃⟩
  rcases IdealFlash.serves flash MAX_SPIN KERNEL_OFFSET
    ((Image.ofFlash flash).manifest.word PAYLOAD_SIZE) q₃ with ⟨q₄, h₄⟩
  rw [Image.ServedBy, hport]
  exact ⟨q₁, q₂, q₃, h₁, h₂, h₃, fun _ _ => ⟨q₄, h₄⟩⟩

/-! ## The real block -/

open Spi

/-- The one-instruction kernel, with something else behind it. -/
def selfLoopStorage (rest : Byte) : Storage :=
  { Block.blankStorage with mem := fun a => if a < 0xC4 then selfLoop.flash a else rest }

theorem selfLoopStorage_memory (rest : Byte) (a : Nat) (ha : a < 0xC4) :
    (selfLoopStorage rest).memory a = selfLoop.flash a := by
  show (if a % 2 ^ 20 < 0xC4 then selfLoop.flash (a % 2 ^ 20) else rest) = selfLoop.flash a
  rw [Nat.mod_eq_of_lt (by omega), if_pos ha]

theorem selfLoopStorage_manifest (rest : Byte) :
    (Image.ofFlash (selfLoopStorage rest).memory).manifest = selfLoop.manifest := by
  have hbytes : (selfLoopStorage rest).memory.read 0 96 = selfLoop.manifest.bytes := by
    rw [← selfLoop.flash_manifest]
    exact Memory.read_congr fun i hi => selfLoopStorage_memory rest (0 + i) (by omega)
  simp only [Image.ofFlash, hbytes]

theorem selfLoopStorage_plain (rest : Byte) :
    (Image.ofFlash (selfLoopStorage rest).memory).PlainLoad := by
  intro _
  rw [selfLoopStorage_manifest, selfLoop_load]
  exact inWindows_dram (Nat.le_refl _) (by decide)

/-- The chip that accepts that kernel, with the real block. -/
def selfLoopSoc (rest : Byte) (gap : Nat → Nat) (patience : Nat) : Soc Host :=
  { blankSoc with
    port := Host.port (selfLoopStorage rest) gap patience
    otpHash := selfLoop.chip.otpHash
    script := selfLoop.chip.script }

/-- And with the ideal flash. -/
def selfLoopIdeal (rest : Byte) : Soc IdealFlash :=
  { selfLoop.chip with port := IdealFlash.port (selfLoopStorage rest).memory }

/-- A boot on the SPI block is a boot on the ideal flash with the same bytes, whatever the flash
holds and however the bus spaces the accesses. -/
theorem boots_as_on_ideal (soc : Soc Host) (ideal : Soc IdealFlash) (hsoc : Variant soc ideal)
    (f : Storage) (gap : Nat → Nat) (patience : Nat) (hport : soc.port = Host.port f gap patience)
    (hideal : ideal.port = IdealFlash.port f.memory) (s : Machine (Devices Host))
    (t : Machine (Devices IdealFlash)) (h : Alike s t) (hready : s.dev.spi.Ready)
    (hplain : (Image.ofFlash f.memory).Verified soc → (Image.ofFlash f.memory).PlainLoad) :
    Match Alike Alike (bootromMain soc.platform s) (bootromMain ideal.platform t) := by
  have hserved : (Image.ofFlash f.memory).ServedBy soc s.dev.spi :=
    Image.servedBy_host soc f gap patience _ hport (Image.ofFlash_length _)
      (fun a ha => (Image.flash_ofFlash _ a ha).symm) _ hready
  exact bootromMain_alike hsoc _ s t h hserved (Image.ofFlash_ideal ideal _ hideal _) hplain

theorem selfLoop_as_on_ideal :
    Match Alike Alike (bootromMain (selfLoopSoc 0xFF (fun _ => 3) 0).platform blankReset)
      (bootromMain (selfLoopIdeal 0xFF).platform (Image.atReset (fun _ => 0xFF) 0)) :=
  boots_as_on_ideal (selfLoopSoc 0xFF (fun _ => 3) 0) (selfLoopIdeal 0xFF)
    ⟨rfl, rfl, rfl, fun _ _ _ => rfl, fun _ _ _ => rfl, fun _ _ _ => rfl⟩ (selfLoopStorage 0xFF)
    (fun _ => 3) 0 rfl rfl blankReset _ ⟨rfl, rfl, rfl⟩ Host.ready_reset
    fun _ => selfLoopStorage_plain 0xFF

/-- What lies behind the image in the flash, and the pace of the bus, leave no trace. -/
theorem boot_sees_image_only (soc soc' : Soc Host) (hsoc : Variant soc soc') (f f' : Storage)
    (gap gap' : Nat → Nat) (patience patience' : Nat) (hport : soc.port = Host.port f gap patience)
    (hport' : soc'.port = Host.port f' gap' patience')
    (hflash : ∀ a < 0xC0 + (Image.ofFlash f.memory).manifest.payloadSize,
      f'.memory a = f.memory a)
    (s t : Machine (Devices Host)) (h : Alike s t) (hready : s.dev.spi.Ready)
    (hready' : t.dev.spi.Ready)
    (hplain : (Image.ofFlash f.memory).Verified soc → (Image.ofFlash f.memory).PlainLoad) :
    Match Alike Alike (bootromMain soc.platform s) (bootromMain soc'.platform t) := by
  have hserved : (Image.ofFlash f.memory).ServedBy soc s.dev.spi :=
    Image.servedBy_host soc f gap patience _ hport (Image.ofFlash_length _)
      (fun a ha => (Image.flash_ofFlash _ a ha).symm) _ hready
  have hserved' : (Image.ofFlash f.memory).ServedBy soc' t.dev.spi :=
    Image.servedBy_host soc' f' gap' patience' _ hport' (Image.ofFlash_length _)
      (fun a ha => (hflash a ha).trans (Image.flash_ofFlash _ a ha).symm) _ hready'
  exact bootromMain_alike hsoc _ s t h hserved hserved' hplain

theorem selfLoop_sees_image_only :
    Match Alike Alike (bootromMain (selfLoopSoc 0xFF (fun _ => 3) 0).platform blankReset)
      (bootromMain (selfLoopSoc 0 (fun _ => 100) 7).platform blankReset) := by
  have hsize : (Image.ofFlash (selfLoopStorage 0xFF).memory).manifest.payloadSize = 4 := by
    rw [selfLoopStorage_manifest, selfLoop_size]
  apply boot_sees_image_only (selfLoopSoc 0xFF (fun _ => 3) 0) (selfLoopSoc 0 (fun _ => 100) 7)
    ⟨rfl, rfl, rfl, fun _ _ _ => rfl, fun _ _ _ => rfl, fun _ _ _ => rfl⟩ (selfLoopStorage 0xFF)
    (selfLoopStorage 0) (fun _ => 3) (fun _ => 100) 0 7 rfl rfl
  · intro a ha
    rw [hsize] at ha
    rw [selfLoopStorage_memory 0 a ha, selfLoopStorage_memory 0xFF a ha]
  · exact ⟨rfl, rfl, rfl⟩
  · exact Host.ready_reset
  · exact Host.ready_reset
  · exact fun _ => selfLoopStorage_plain 0xFF

end SecureBoot.Bootrom
