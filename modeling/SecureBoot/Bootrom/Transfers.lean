import SecureBoot.Bootrom.Provision
import SecureBoot.Hardware.Spi.Host

/-!
# BootROM on the SPI block

`read_flash` against the register block itself: any number of calls, one after
the other, and the boot reads of an image that is stored in the flash.
-/

namespace SecureBoot.Bootrom

open Words Exec Spi

/-! ## Back-to-back reads -/

/-- The arguments of `read_flash`. -/
structure Call where
  offset : Word
  total : Word
  buffer : Nat
deriving DecidableEq, Repr

def readFlashes {δ : Type} (p : Platform δ) : List Call → Boot δ Unit
  | [] => pure ()
  | c :: calls => do
      readFlash p c.offset c.total c.buffer
      readFlashes p calls

/-- At least one byte, into a buffer in DRAM. -/
def Call.Valid {δ : Type} (p : Platform δ) (c : Call) : Prop :=
  c.total ≠ 0 ∧ p.RamRange c.buffer c.total.toNat

variable (soc : Soc Host) (f : Storage)

/-- The call takes `s` to `t`: it returns, with the bytes of the flash in the buffer and nothing
else written, and the block is as ready as after reset. -/
structure Call.Served (c : Call) (s t : Machine (Devices Host)) : Prop where
  returns : readFlash soc.platform c.offset c.total c.buffer s = .ok () t
  bytes : ∀ i < c.total.toNat,
    t.mem (c.buffer + i) = f.mem ((c.offset.toNat % 2 ^ 24 + i) % f.depthBytes)
  frame : ∀ x, x < c.buffer ∨ c.buffer + c.total.toNat ≤ x → t.mem x = s.mem x
  ready : t.dev.spi.Ready

/-- Each call is served from the state that the one before it left. -/
inductive AllServed : List Call → Machine (Devices Host) → Machine (Devices Host) → Prop
  | nil (s : Machine (Devices Host)) : AllServed [] s s
  | cons (c : Call) (calls : List Call) (s t u : Machine (Devices Host))
      (hcall : c.Served soc f s t) (hrest : AllServed calls t u) : AllServed (c :: calls) s u

variable (gap : Nat → Nat) (patience : Nat)

theorem readFlash_served (hport : soc.port = Host.port f gap patience) (c : Call)
    (s : Machine (Devices Host)) (hready : s.dev.spi.Ready) (hc : c.Valid soc.platform) :
    ∃ t, c.Served soc f s t := by
  rcases hready.serves f gap patience MAX_SPIN (by decide) c.offset c.total hc.1 with
    ⟨q, hserves, hq⟩
  rw [← hport] at hserves
  have hlen := hserves.length_eq
  have hrun := readFlash_serves soc.platform c.offset c.total c.buffer s _ { s.dev with spi := q }
    hc.2 (hserves.lift (soc.embeds s.dev))
  refine ⟨_, hrun, ?_, ?_, hq⟩
  · intro i hi
    have hbyte := Memory.read_getD f.memory (c.offset.setWidth 24).toNat c.total.toNat i hi
    rw [BitVec.toNat_setWidth] at hbyte
    have hin := Memory.write_apply_of_inside s.mem c.buffer _ (c.buffer + i) (Nat.le_add_right _ _)
      (by rw [hlen]; omega)
    exact (hin.trans (by rw [Nat.add_sub_cancel_left]; rfl)).trans hbyte
  · intro x hx
    exact Memory.write_apply_of_outside s.mem c.buffer _ x (by rw [hlen]; exact hx)

/-- Any number of flash reads, one after the other, from a ready block. -/
theorem readFlashes_served (hport : soc.port = Host.port f gap patience) (calls : List Call)
    (s : Machine (Devices Host)) (hready : s.dev.spi.Ready)
    (hcalls : ∀ c ∈ calls, c.Valid soc.platform) :
    ∃ u, readFlashes soc.platform calls s = .ok () u ∧ AllServed soc f calls s u := by
  induction calls generalizing s with
  | nil => exact ⟨s, rfl, .nil s⟩
  | cons c calls ih =>
      rcases readFlash_served soc f gap patience hport c s hready (hcalls c (by simp)) with
        ⟨t, hcall⟩
      rcases ih t hcall.ready (fun c' hc' => hcalls c' (by simp [hc'])) with ⟨u, hrun, hrest⟩
      refine ⟨u, ?_, .cons c calls s t u hcall hrest⟩
      rw [readFlashes, bind_of_ok hcall.returns]
      exact hrun

/-- From reset on, back-to-back reads all return the bytes of the flash, whatever the gaps between
the accesses. -/
theorem backToBack (hport : soc.port = Host.port f gap patience) (calls : List Call)
    (s : Machine (Devices Host)) (hreset : s.dev.spi = Host.reset)
    (hcalls : ∀ c ∈ calls, c.Valid soc.platform) :
    ∃ u, readFlashes soc.platform calls s = .ok () u ∧ AllServed soc f calls s u := by
  have hready : s.dev.spi.Ready := by
    rw [hreset]
    exact Host.ready_reset
  exact readFlashes_served soc f gap patience hport calls s hready hcalls

/-- A chip with the real block on a bus with three idle cycles between accesses. -/
def blankSoc : Soc Host where
  port := Host.port Block.blankStorage (fun _ => 3) 0
  otpHash := Vector.replicate 32 0
  script _ := false
  hartid := 0
  frames := Image.zeroFrames
  read8 _ d := (0, d)
  write8 _ _ d := d

def blankReset : Machine (Devices Host) where
  mem _ := 0xFF
  dev :=
    { spi := .reset
      ed25519 := ⟨Vector.replicate 192 0, 0, 0, 0, ⟨[], [], []⟩⟩
      counter := 0
      status := 0 }
  mtvec := START
  mepc := 0
  mstatus := 0
  a0 := 0
  a1 := 0
  pmp := .zero

/-- The boot parts, then five bytes across the end of the flash. -/
def blankCalls : List Call :=
  [⟨MANIFEST_OFFSET, MANIFEST_SIZE, MANIFEST_BUFFER⟩,
    ⟨SIGNATURE_OFFSET, SIGNATURE_SIZE, SIGNATURE_BUFFER⟩,
    ⟨PUBLIC_KEY_OFFSET, PUBLIC_KEY_SIZE, PUBLIC_KEY_BUFFER⟩, ⟨0xFFFFE, 5, 0x80000000⟩]

theorem blank_backToBack : ∃ u, readFlashes blankSoc.platform blankCalls blankReset = .ok () u ∧
    AllServed blankSoc Block.blankStorage blankCalls blankReset u := by
  refine backToBack blankSoc Block.blankStorage (fun _ => 3) 0 rfl blankCalls blankReset rfl ?_
  intro c hc
  simp only [blankCalls, List.mem_cons, List.not_mem_nil, or_false] at hc
  rcases hc with rfl | rfl | rfl | rfl
  · exact ⟨by decide, blankSoc.ramRange _ _ (by decide) (by decide)⟩
  · exact ⟨by decide, blankSoc.ramRange _ _ (by decide) (by decide)⟩
  · exact ⟨by decide, blankSoc.ramRange _ _ (by decide) (by decide)⟩
  · exact ⟨by decide, blankSoc.ramRange _ _ (by decide) (by decide)⟩

/-! ## An image in the flash -/

/-- A flash that holds an image serves the read of its payload, … -/
theorem Image.payload_served (I : Image) (hlen : I.payload.length = I.manifest.payloadSize)
    (hflash : ∀ a < 0xC0 + I.manifest.payloadSize, f.memory a = I.flash a)
    (hguard : ¬ LoadRefused I.manifest) (q : Host) (hq : q.Ready) :
    ∃ q', (Host.port f gap patience).Serves MAX_SPIN KERNEL_OFFSET (I.manifest.word PAYLOAD_SIZE) q
      I.payload q' := by
  have hsize : I.manifest.word PAYLOAD_SIZE ≠ 0 :=
    fun hzero => hguard (.inl ((payloadSize_eq_zero_iff _).mpr hzero))
  have hread : f.memory.read 0xC0 I.manifest.payloadSize =
      I.flash.read 0xC0 I.manifest.payloadSize :=
    Memory.read_congr fun i hi => hflash (0xC0 + i) (by omega)
  rcases hq.serves f gap patience MAX_SPIN (by decide) KERNEL_OFFSET _ hsize with ⟨q', h, _⟩
  rw [show (KERNEL_OFFSET.setWidth 24).toNat = 0xC0 from rfl, ← Manifest.payloadSize, hread,
    I.flash_payload _ hlen] at h
  exact ⟨q', h⟩

/-- … and every boot read of it. -/
theorem Image.servedBy_host (I : Image) (hport : soc.port = Host.port f gap patience)
    (hlen : I.payload.length = I.manifest.payloadSize)
    (hflash : ∀ a < 0xC0 + I.manifest.payloadSize, f.memory a = I.flash a) (q : Host)
    (hq : q.Ready) : I.ServedBy soc q := by
  have hread : ∀ a n, a + n ≤ 0xC0 + I.manifest.payloadSize →
      f.memory.read a n = I.flash.read a n := by
    intro a n han
    exact Memory.read_congr fun i hi => hflash (a + i) (by omega)
  rw [ServedBy, hport]
  rcases hq.serves f gap patience MAX_SPIN (by decide) MANIFEST_OFFSET MANIFEST_SIZE (by decide)
    with ⟨q₁, h₁, hq₁⟩
  rcases hq₁.serves f gap patience MAX_SPIN (by decide) SIGNATURE_OFFSET SIGNATURE_SIZE (by decide)
    with ⟨q₂, h₂, hq₂⟩
  rcases hq₂.serves f gap patience MAX_SPIN (by decide) PUBLIC_KEY_OFFSET PUBLIC_KEY_SIZE
    (by decide) with ⟨q₃, h₃, hq₃⟩
  rw [show (MANIFEST_OFFSET.setWidth 24).toNat = 0 from rfl,
    show MANIFEST_SIZE.toNat = 96 from rfl, hread 0 96 (by omega), I.flash_manifest] at h₁
  rw [show (SIGNATURE_OFFSET.setWidth 24).toNat = 0x60 from rfl,
    show SIGNATURE_SIZE.toNat = 64 from rfl, hread 0x60 64 (by omega), I.flash_signature] at h₂
  rw [show (PUBLIC_KEY_OFFSET.setWidth 24).toNat = 0xA0 from rfl,
    show PUBLIC_KEY_SIZE.toNat = 32 from rfl, hread 0xA0 32 (by omega), I.flash_publicKey] at h₃
  refine ⟨q₁, q₂, q₃, h₁, h₂, h₃, ?_⟩
  intro _ hguard
  exact I.payload_served f gap patience hlen hflash hguard q₃ hq₃

end SecureBoot.Bootrom
