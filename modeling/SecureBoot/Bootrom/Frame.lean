import SecureBoot.Bootrom.Access

/-!
# Reading flash from any peripheral

Whatever the SPI registers answer, `read_flash` stores inside its buffer,
touches no other state of the machine, and either returns, enters recovery,
or faults on an unmapped buffer address.
-/

namespace SecureBoot.Bootrom

open Words Exec

variable {δ ω : Type} (p : Platform δ)

def Platform.mapped (x : Nat) : Bool := p.ram x || p.mmio x

/-- The addresses of a buffer. -/
def Within (a n x : Nat) : Prop := a ≤ x ∧ x < a + n

instance (a n x : Nat) : Decidable (Within a n x) := inferInstanceAs (Decidable (_ ∧ _))

/-- The registers outside memory and devices. -/
def Machine.core (s : Machine δ) : Nat × Nat × DWord × DWord × DWord × Pmp :=
  (s.mtvec, s.mepc, s.mstatus, s.a0, s.a1, s.pmp)

/-- Between the two states memory changed inside `S` only, the observed part of the devices and
the registers of the hart not at all. -/
structure Kept (S : Nat → Prop) (obs : δ → ω) (s s' : Machine δ) : Prop where
  mem : Memory.ChangedOnly S s.mem s'.mem
  dev : obs s'.dev = obs s.dev
  core : s'.core = s.core

theorem Kept.refl (S : Nat → Prop) (obs : δ → ω) (s : Machine δ) : Kept S obs s s :=
  ⟨.refl _ _, rfl, rfl⟩

theorem Kept.trans {S : Nat → Prop} {obs : δ → ω} {s₁ s₂ s₃ : Machine δ} (h₁ : Kept S obs s₁ s₂)
    (h₂ : Kept S obs s₂ s₃) : Kept S obs s₁ s₃ :=
  ⟨h₁.mem.trans h₂.mem, h₂.dev.trans h₁.dev, h₂.core.trans h₁.core⟩

theorem Kept.mono {S T : Nat → Prop} {obs : δ → ω} {s s' : Machine δ} (h : Kept S obs s s')
    (hST : ∀ x, S x → T x) : Kept T obs s s' :=
  ⟨h.mem.mono hST, h.dev, h.core⟩

/-- The two ways to leave: `enter_recovery` from a state reached so far, or an access fault. -/
inductive Failed (S F : Nat → Prop) (obs : δ → ω) (reason : Word) (s : Machine δ) :
    Exit → Machine δ → Prop
  | recovery (s₁ : Machine δ) (h : Kept S obs s s₁) :
      Failed S F obs reason s .recovery (recoveryState p reason s₁)
  | fault (x : Nat) (s₁ : Machine δ) (hx : F x) (h : Kept S obs s s₁) :
      Failed S F obs reason s (.fault x) s₁

theorem Failed.trans {p : Platform δ} {S F : Nat → Prop} {obs : δ → ω} {reason : Word}
    {s s₁ s' : Machine δ} {e : Exit} (h : Kept S obs s s₁) (hf : Failed p S F obs reason s₁ e s') :
    Failed p S F obs reason s e s' := by
  cases hf with
  | recovery s₂ h₂ => exact .recovery s₂ (h.trans h₂)
  | fault x s₂ hx h₂ => exact .fault x s' hx (h.trans h₂)

theorem Failed.mono {p : Platform δ} {S T F G : Nat → Prop} {obs : δ → ω} {reason : Word}
    {s s' : Machine δ} {e : Exit} (hf : Failed p S F obs reason s e s')
    (hST : ∀ x, S x → T x) (hFG : ∀ x, F x → G x) : Failed p T G obs reason s e s' := by
  cases hf with
  | recovery s₁ h => exact .recovery s₁ (h.mono hST)
  | fault x s₁ hx h => exact .fault x s' (hFG x hx) (h.mono hST)

/-! ## Stores -/

/-- The devices that a buffer reaches do not show in the observation. -/
def Unseen (obs : δ → ω) (a n : Nat) : Prop :=
  ∀ x, Within a n x → p.ram x = false → ∀ b d, obs (p.write8 x b d) = obs d

theorem storeByte_wp (obs : δ → ω) (a : Nat) (b : Byte) (s : Machine δ)
    (hobs : p.ram a = false → ∀ b d, obs (p.write8 a b d) = obs d) :
    Wp (storeByte p a b)
      (fun _ s' => p.mapped a = true ∧ Kept (Within a 1) obs s s')
      (fun e s' => e = .fault a ∧ p.mapped a = false ∧ s' = s) s := by
  unfold Platform.mapped
  cases hram : p.ram a with
  | true =>
      refine wp_of_ok (storeByte_ram p a b s hram) ⟨rfl, ?_, rfl, rfl⟩
      rw [Memory.store_eq_write]
      exact Memory.write_changedOnly _ _ _ fun x h₁ h₂ => ⟨h₁, h₂⟩
  | false =>
      cases hmmio : p.mmio a with
      | true =>
          exact wp_of_ok (storeByte_mmio p a b s hram hmmio)
            ⟨rfl, .refl _ _, hobs hram b s.dev, rfl⟩
      | false => exact wp_of_error (storeByte_fault p a b s hram hmmio) ⟨rfl, rfl, rfl⟩

theorem storeBytes_wp (obs : δ → ω) (a : Nat) (bs : List Byte) (s : Machine δ)
    (hobs : Unseen p obs a bs.length) :
    Wp (storeBytes p a bs)
      (fun _ s' => (∀ x, Within a bs.length x → p.mapped x = true) ∧
        Kept (Within a bs.length) obs s s')
      (fun e s' => ∃ x, e = .fault x ∧ Within a bs.length x ∧ p.mapped x = false ∧
        Kept (Within a bs.length) obs s s') s := by
  induction bs generalizing a s with
  | nil =>
      refine wp_of_ok (show storeBytes p a [] s = .ok () s from rfl) ⟨?_, .refl _ _ _⟩
      intro x hx
      rcases hx with ⟨h₁, h₂⟩
      simp only [List.length_nil] at h₂
      omega
  | cons b bs ih =>
      have hin : ∀ x, Within (a + 1) bs.length x → Within a (b :: bs).length x := by
        intro x hx
        rcases hx with ⟨h₁, h₂⟩
        exact ⟨by omega, by rw [List.length_cons]; omega⟩
      have hhead : Within a (b :: bs).length a := ⟨by omega, by rw [List.length_cons]; omega⟩
      have hone : ∀ x, Within a 1 x → Within a (b :: bs).length x := by
        intro x hx
        rcases hx with ⟨h₁, h₂⟩
        exact ⟨h₁, by rw [List.length_cons]; omega⟩
      rw [storeBytes]
      refine wp_bind ((storeByte_wp p obs a b s (hobs a hhead)).mono ?_ ?_)
      · intro _ s₁ h
        rcases h with ⟨hmapped, hk₁⟩
        refine (ih (a + 1) s₁ fun x hx => hobs x (hin x hx)).mono ?_ ?_
        · intro _ s₂ h
          rcases h with ⟨hrest, hk₂⟩
          refine ⟨?_, (hk₁.mono hone).trans (hk₂.mono hin)⟩
          intro x hx
          rcases hx with ⟨h₁, h₂⟩
          by_cases hx : x = a
          · rw [hx]
            exact hmapped
          · exact hrest x ⟨by omega, by rw [List.length_cons] at h₂; omega⟩
        · intro e s₂ h
          rcases h with ⟨x, he, hx, hun, hk₂⟩
          exact ⟨x, he, hin x hx, hun, (hk₁.mono hone).trans (hk₂.mono hin)⟩
      · intro e s₁ h
        rcases h with ⟨he, hun, hs⟩
        subst hs
        exact ⟨a, he, hhead, hun, .refl _ _ _⟩

/-! ## The polling loops -/

/-- The reads of the two polled registers do not show in the observation. -/
structure Polls (obs : δ → ω) : Prop where
  status : ∀ d, obs (p.read32 SPI_STATUS d).2 = obs d
  data : ∀ d, obs (p.read32 SPI_DATA d).2 = obs d

theorem readRegister_kept (obs : δ → ω) (S : Nat → Prop) (a : Nat) (s : Machine δ)
    (h : ∀ d, obs (p.read32 a d).2 = obs d) :
    Wp (readRegister p a) (fun _ s' => Kept S obs s s') (fun _ _ => False) s :=
  wp_of_ok rfl ⟨.refl _ _, h s.dev, rfl⟩

theorem enterRecovery_wp {α : Type} {Q : α → Machine δ → Prop} (S F : Nat → Prop) (obs : δ → ω)
    (reason : Word) (s : Machine δ) :
    Wp (enterRecovery p reason) Q (Failed p S F obs reason s) s :=
  wp_of_error (enterRecovery_eq p reason s) (.recovery s (.refl _ _ _))

/-- The unmapped addresses of a buffer. -/
def Unmapped (a n x : Nat) : Prop := Within a n x ∧ p.mapped x = false

theorem pollData_wp (obs : δ → ω) (hpoll : Polls p obs) (output total bytesRead spin : Nat)
    (s : Machine δ) (hobs : Unseen p obs output total) :
    Wp (pollData p output total bytesRead spin)
      (fun _ s' => (∀ x, Within (output + bytesRead) (total - bytesRead) x → p.mapped x = true) ∧
        Kept (Within output total) obs s s')
      (Failed p (Within output total) (Unmapped p output total) obs SR_LOAD_KERNEL s) s := by
  induction bytesRead, spin using pollData.induct total generalizing s with
  | case2 bytesRead spin hge =>
      rw [pollData, if_neg hge]
      refine wp_of_ok (pure_apply () s) ⟨?_, .refl _ _ _⟩
      intro x hx
      rcases hx with ⟨h₁, h₂⟩
      omega
  | case1 bytesRead spin hlt ihSpin ihWord =>
      rw [pollData, if_pos hlt]
      refine (readRegister_kept p obs (Within output total) SPI_STATUS s hpoll.status).bind ?_
        fun _ _ h => h.elim
      intro status s₁ hk₁
      have hrecover : Wp (enterRecovery p SR_LOAD_KERNEL : Boot δ Unit)
          (fun _ s' => (∀ x, Within (output + bytesRead) (total - bytesRead) x →
            p.mapped x = true) ∧ Kept (Within output total) obs s s')
          (Failed p (Within output total) (Unmapped p output total) obs SR_LOAD_KERNEL s) s₁ :=
        (enterRecovery_wp p _ _ obs SR_LOAD_KERNEL s₁).mono (fun _ _ h => h)
          fun _ _ h => h.trans hk₁
      refine wp_ite (fun _ => hrecover) fun _ => wp_ite (fun _ => wp_ite (fun _ => hrecover) ?_) ?_
      · intro hspin
        exact (ihSpin hspin s₁).mono (fun _ s' h => ⟨h.1, hk₁.trans h.2⟩) fun _ _ h => h.trans hk₁
      · intro _
        refine (readRegister_kept p obs (Within output total) SPI_DATA s₁ hpoll.data).bind ?_
          fun _ _ h => h.elim
        intro word s₂ hk₂
        have hk₁₂ := hk₁.trans hk₂
        have hlen := leBytes_take_length word (total - bytesRead)
        have hin : ∀ x, Within (output + bytesRead)
            ((leBytes word).take (total - bytesRead)).length x → Within output total x := by
          intro x hx
          rcases hx with ⟨h₁, h₂⟩
          exact ⟨by omega, by omega⟩
        refine (storeBytes_wp p obs _ _ s₂ fun x hx => hobs x (hin x hx)).bind ?_ ?_
        · intro _ s₃ h
          rcases h with ⟨hmapped, hk₃⟩
          have hk := hk₁₂.trans (hk₃.mono hin)
          refine (ihWord s₃).mono (fun _ s' h => ⟨?_, hk.trans h.2⟩) fun _ _ h => h.trans hk
          intro x hx
          rcases hx with ⟨h₁, h₂⟩
          by_cases hx : x < output + bytesRead + min 4 (total - bytesRead)
          · exact hmapped x ⟨h₁, by omega⟩
          · exact h.1 x ⟨by omega, by omega⟩
        · intro e s₃ h
          rcases h with ⟨x, he, hx, hun, hk₃⟩
          rw [he]
          exact .fault x s₃ ⟨hin x hx, hun⟩ (hk₁₂.trans (hk₃.mono hin))

theorem pollDone_wp (obs : δ → ω) (hpoll : Polls p obs) (S F : Nat → Prop) (spin : Nat)
    (s : Machine δ) :
    Wp (pollDone p spin) (fun _ s' => Kept S obs s s') (Failed p S F obs SR_LOAD_KERNEL s) s := by
  induction spin using pollDone.induct generalizing s with
  | case1 spin ih =>
      rw [pollDone]
      refine (readRegister_kept p obs S SPI_STATUS s hpoll.status).bind ?_ fun _ _ h => h.elim
      intro status s₁ hk₁
      refine wp_ite (fun _ => wp_ite (fun _ => ?_) fun hspin => ?_) fun _ => ?_
      · exact (enterRecovery_wp p S F obs SR_LOAD_KERNEL s₁).mono (fun _ _ h => h)
          fun _ _ h => h.trans hk₁
      · exact (ih hspin s₁).mono (fun _ _ h => hk₁.trans h) fun _ _ h => h.trans hk₁
      · exact wp_of_ok (pure_apply () s₁) hk₁

/-- The writes that start a transaction do not show either. -/
structure SpiUnseen (obs : δ → ω) : Prop extends Polls p obs where
  write : ∀ a, SPI_BASE ≤ a → a < SPI_BASE + 0x14 → ∀ value d, obs (p.write32 a value d) = obs d

theorem startFlashRead_wp (obs : δ → ω) (hspi : SpiUnseen p obs) (S : Nat → Prop)
    (offset total : Word) (s : Machine δ) :
    Wp (startFlashRead p offset total) (fun _ s' => Kept S obs s s') (fun _ _ => False) s := by
  have hwrite : ∀ (a : Nat) (value : Word) (s : Machine δ), SPI_BASE ≤ a → a < SPI_BASE + 0x14 →
      Kept S obs s { s with dev := p.write32 a value s.dev } :=
    fun a value s h₁ h₂ => ⟨.refl _ _, hspi.write a h₁ h₂ value s.dev, rfl⟩
  refine wp_of_ok rfl ?_
  refine (hwrite SPI_ADDR offset s (by decide) (by decide)).trans ?_
  refine (hwrite SPI_LEN total _ (by decide) (by decide)).trans ?_
  refine (hwrite SPI_COMMAND SPI_CLEAR_DONE _ (by decide) (by decide)).trans ?_
  exact hwrite SPI_COMMAND SPI_START_READ _ (by decide) (by decide)

/-- `read_flash` against every peripheral. -/
theorem readFlash_wp (obs : δ → ω) (hspi : SpiUnseen p obs) (offset total : Word) (output : Nat)
    (s : Machine δ) (hobs : Unseen p obs output total.toNat) :
    Wp (readFlash p offset total output)
      (fun _ s' => (∀ x, Within output total.toNat x → p.mapped x = true) ∧
        Kept (Within output total.toNat) obs s s')
      (Failed p (Within output total.toNat) (Unmapped p output total.toNat) obs SR_LOAD_KERNEL s)
      s := by
  refine (startFlashRead_wp p obs hspi (Within output total.toNat) offset total s).bind ?_
    fun _ _ h => h.elim
  intro _ s₁ hk₁
  refine (pollData_wp p obs hspi.toPolls output total.toNat 0 0 s₁ hobs).bind ?_
    fun _ _ h => h.trans hk₁
  intro _ s₂ h
  rcases h with ⟨hmapped, hk₂⟩
  have hk₁₂ := hk₁.trans hk₂
  refine (pollDone_wp p obs hspi.toPolls _ _ 0 s₂).mono (fun _ s' h => ⟨?_, hk₁₂.trans h⟩)
    fun _ _ h => h.trans hk₁₂
  exact hmapped

/-! ## Hashing a range anywhere -/

/-- Byte loads from peripheral windows do not show in the observation. -/
def LoadsUnseen (obs : δ → ω) : Prop := ∀ a d, obs (p.read8 a d).2 = obs d

theorem loadByte_wp (obs : δ → ω) (hobs : LoadsUnseen p obs) (S : Nat → Prop) (a : Nat)
    (s : Machine δ) :
    Wp (loadByte p a) (fun _ s' => p.mapped a = true ∧ Kept S obs s s')
      (fun e s' => e = .fault a ∧ p.mapped a = false ∧ s' = s) s := by
  unfold Platform.mapped
  cases hram : p.ram a with
  | true => exact wp_of_ok (loadByte_ram p a s hram) ⟨rfl, .refl _ _ _⟩
  | false =>
      cases hmmio : p.mmio a with
      | true => exact wp_of_ok (loadByte_mmio p a s hram hmmio) ⟨rfl, .refl _ _, hobs a s.dev, rfl⟩
      | false => exact wp_of_error (loadByte_fault p a s hram hmmio) ⟨rfl, rfl, rfl⟩

theorem loadMessage_wp (obs : δ → ω) (hobs : LoadsUnseen p obs) (S : Nat → Prop) (a n : Nat)
    (s : Machine δ) :
    Wp (loadMessage p a n) (fun _ s' => Kept S obs s s')
      (fun e s' => ∃ x, e = .fault x ∧ Unmapped p a n x ∧ Kept S obs s s') s := by
  induction n generalizing a s with
  | zero => exact wp_of_ok (pure_apply [] s) (.refl _ _ _)
  | succ n ih =>
      rw [loadMessage]
      refine (loadByte_wp p obs hobs S a s).bind ?_ ?_
      · intro b s₁ h
        rcases h with ⟨_, hk₁⟩
        refine wp_bind (wp_of_ok (get_apply s₁) ?_)
        refine (ih (a + 1) s₁).bind (fun bs s₂ hk₂ => wp_of_ok (pure_apply _ s₂) (hk₁.trans hk₂)) ?_
        intro e s₂ h
        rcases h with ⟨x, he, ⟨⟨h₁, h₂⟩, hun⟩, hk₂⟩
        exact ⟨x, he, ⟨⟨by omega, by omega⟩, hun⟩, hk₁.trans hk₂⟩
      · intro e s₁ h
        rcases h with ⟨he, hun, hs⟩
        subst hs
        exact ⟨a, he, ⟨⟨by omega, by omega⟩, hun⟩, .refl _ _ _⟩

/-- `sha256_hash` of any range into a DRAM buffer. -/
theorem sha256Hash_wp (obs : δ → ω) (hobs : LoadsUnseen p obs) (data len digest : Nat)
    (s : Machine δ) (hdigest : p.RamRange digest 32) :
    Wp (sha256Hash p data len digest)
      (fun _ s' => Kept (fun x => Within digest 32 x ∨ inFrame x = true) obs s s')
      (fun e s' => ∃ x, e = .fault x ∧ Unmapped p data len x ∧
        Kept (fun x => Within digest 32 x ∨ inFrame x = true) obs s s') s := by
  rw [sha256Hash]
  refine (loadMessage_wp p obs hobs _ data len s).bind ?_ fun e s' h => h
  intro bs s₁ hk₁
  refine wp_bind (wp_of_ok (get_apply s₁) ?_)
  obtain ⟨ctx, hctx⟩ := Sha256.sha256Hash_digest (p.frames.stale s₁.dev) bs
  simp only [hctx]
  have hstore := storeBytes_ram p digest (Fips180.sha256 bs) s₁
    (by rwa [Fips180.sha256_length])
  refine wp_bind (wp_of_ok hstore (wp_of_ok (modify_apply _ _) (hk₁.trans ⟨?_, rfl, rfl⟩)))
  refine (Memory.write_changedOnly _ _ _ ?_).trans ((stackAfter_changedOnly p ctx _).mono ?_)
  · intro x h₁ h₂
    rw [Fips180.sha256_length] at h₂
    exact .inl ⟨h₁, h₂⟩
  · exact fun x hx => .inr hx

end SecureBoot.Bootrom
