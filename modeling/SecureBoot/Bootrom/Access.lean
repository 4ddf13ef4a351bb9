import SecureBoot.Bootrom.Code
import SecureBoot.Sha256.Stream

/-!
# What the small functions do

One equation for each helper of `bootrom.c` on DRAM, and for the exits. The
stages are verified from these without unfolding a helper again.
-/

namespace SecureBoot.Bootrom

open Words Exec

variable {δ : Type} (p : Platform δ)

/-- The memory map in numbers, for arithmetic. -/
theorem addresses :
    DRAM_BASE = 0x80000000 ∧ MANIFEST_BUFFER = 0x88000000 ∧ SIGNATURE_BUFFER = 0x88000100 ∧
      PUBLIC_KEY_BUFFER = 0x88000200 ∧ PUBLIC_KEY_HASH = 0x88000300 ∧
      OTP_HASH_BUFFER = 0x88000340 ∧ KERNEL_HASH_BUFFER = 0x88000380 ∧
      KERNEL_CHUNK = 0x88000400 ∧ RECOVERY_ENTRY = 0x80100000 ∧ CTX_BASE = 0x8800FF50 :=
  ⟨rfl, rfl, rfl, rfl, rfl, rfl, rfl, rfl, rfl, rfl⟩

def Platform.RamRange (a n : Nat) : Prop := ∀ x, a ≤ x → x < a + n → p.ram x = true

theorem Platform.RamRange.mono {p : Platform δ} {a n b k : Nat} (h : p.RamRange a n)
    (ha : a ≤ b) (hn : b + k ≤ a + n) : p.RamRange b k :=
  fun x hx hxk => h x (by omega) (by omega)

/-! ## Loads and stores -/

theorem loadByte_ram (a : Nat) (s : Machine δ) (h : p.ram a = true) :
    loadByte p a s = .ok (s.mem a) s := by
  rw [loadByte, if_pos h]

theorem storeByte_ram (a : Nat) (b : Byte) (s : Machine δ) (h : p.ram a = true) :
    storeByte p a b s = .ok () { s with mem := s.mem.store a b } := by
  rw [storeByte, if_pos h]

theorem loadByte_mmio (a : Nat) (s : Machine δ) (h : p.ram a = false) (hm : p.mmio a = true) :
    loadByte p a s = .ok (p.read8 a s.dev).1 { s with dev := (p.read8 a s.dev).2 } := by
  rw [loadByte, if_neg (by simp [h]), if_pos hm]

theorem loadByte_fault (a : Nat) (s : Machine δ) (h : p.ram a = false) (hm : p.mmio a = false) :
    loadByte p a s = .error (.fault a) s := by
  rw [loadByte, if_neg (by simp [h]), if_neg (by simp [hm])]

theorem storeByte_mmio (a : Nat) (b : Byte) (s : Machine δ) (h : p.ram a = false)
    (hm : p.mmio a = true) :
    storeByte p a b s = .ok () { s with dev := p.write8 a b s.dev } := by
  rw [storeByte, if_neg (by simp [h]), if_pos hm]

theorem storeByte_fault (a : Nat) (b : Byte) (s : Machine δ) (h : p.ram a = false)
    (hm : p.mmio a = false) : storeByte p a b s = .error (.fault a) s := by
  rw [storeByte, if_neg (by simp [h]), if_neg (by simp [hm])]

theorem loadBytes_ram (a n : Nat) (s : Machine δ) (h : p.RamRange a n) :
    loadBytes p a n s = .ok (s.mem.read a n) s := by
  induction n generalizing a with
  | zero => rfl
  | succ n ih =>
      have hrest := ih (a + 1) (h.mono (by omega) (by omega))
      rw [loadBytes, bind_of_ok (loadByte_ram p a s (h a (by omega) (by omega))),
        bind_of_ok hrest, pure_apply, Memory.read_succ]

theorem storeBytes_ram (a : Nat) (bs : List Byte) (s : Machine δ) (h : p.RamRange a bs.length) :
    storeBytes p a bs s = .ok () { s with mem := s.mem.write a bs } := by
  induction bs generalizing a s with
  | nil => simp [storeBytes]
  | cons b bs ih =>
      have hlen : (b :: bs).length = bs.length + 1 := rfl
      rw [storeBytes, bind_of_ok (storeByte_ram p a b s (h a (by omega) (by omega))),
        ih (a + 1) _ (h.mono (by omega) (by omega)), Memory.write_cons]

theorem loadWord_ram (a : Nat) (s : Machine δ) (h : p.RamRange a 4) :
    loadWord p a s = .ok (s.mem.word a) s := by
  rw [loadWord, bind_of_ok (loadBytes_ram p a 4 s h)]
  rfl

theorem loadHalf_ram (a : Nat) (s : Machine δ) (h : p.RamRange a 2) :
    loadHalf p a s = .ok (s.mem.half a) s := by
  rw [loadHalf, bind_of_ok (loadBytes_ram p a 2 s h)]
  rfl

theorem clearBytes_ram (a n : Nat) (s : Machine δ) (h : p.RamRange a n) :
    clearBytes p a n s = .ok () { s with mem := s.mem.write a (List.replicate n 0) } :=
  storeBytes_ram p a _ s (by rwa [List.length_replicate])

/-! ## `same_bytes` -/

/-- What the accumulator of `same_bytes` holds after the whole loop. -/
def diffOf (diff : Byte) : List Byte → List Byte → Byte
  | l :: ls, r :: rs => diffOf (diff ||| (l ^^^ r)) ls rs
  | _, _ => diff

theorem diffBytes_ram (left right n : Nat) (diff : Byte) (s : Machine δ)
    (hl : p.RamRange left n) (hr : p.RamRange right n) :
    diffBytes p left right n diff s =
      .ok (diffOf diff (s.mem.read left n) (s.mem.read right n)) s := by
  induction n generalizing left right diff with
  | zero => rfl
  | succ n ih =>
      rw [diffBytes, bind_of_ok (loadByte_ram p left s (hl left (by omega) (by omega))),
        bind_of_ok (loadByte_ram p right s (hr right (by omega) (by omega))),
        ih _ _ _ (hl.mono (by omega) (by omega)) (hr.mono (by omega) (by omega)),
        Memory.read_succ, Memory.read_succ, diffOf]

/-- The accumulator stays zero exactly on equal strings, wherever they differ first. -/
theorem diffOf_eq_zero_iff (diff : Byte) (l r : List Byte) (h : l.length = r.length) :
    diffOf diff l r = 0#8 ↔ diff = 0#8 ∧ l = r := by
  induction l generalizing diff r with
  | nil =>
      have hr : r = [] := List.length_eq_zero_iff.mp h.symm
      simp [hr, diffOf]
  | cons b l ih =>
      cases r with
      | nil => simp at h
      | cons c r =>
          rw [diffOf, ih _ _ (by simpa using h), BitVec.or_eq_zero_iff, BitVec.xor_eq_zero_iff,
            List.cons.injEq, and_assoc]

theorem sameBytes_ram (left right n : Nat) (s : Machine δ) (hl : p.RamRange left n)
    (hr : p.RamRange right n) :
    sameBytes p left right n s = .ok (decide (s.mem.read left n = s.mem.read right n)) s := by
  have hiff := diffOf_eq_zero_iff 0#8 (s.mem.read left n) (s.mem.read right n) (by simp)
  rw [sameBytes, bind_of_ok (diffBytes_ram p left right n 0 s hl hr), pure_apply]
  congr 1
  rw [Bool.eq_iff_iff, beq_iff_eq, decide_eq_true_iff]
  refine hiff.trans ?_
  exact ⟨fun h => h.2, fun h => ⟨rfl, h⟩⟩

/-! ## Exits -/

/-- The state `enter_recovery` leaves. -/
def recoveryState (reason : Word) (s : Machine δ) : Machine δ :=
  { s with
    dev := p.write32 BOOT_STATUS_REG ((p.read32 BOOT_STATUS_REG s.dev).1 ||| reason)
      (p.read32 BOOT_STATUS_REG s.dev).2
    mtvec := MRET_TRAP_EXIT
    mepc := RECOVERY_ENTRY
    a0 := p.hartid
    a1 := 0 }

theorem enterRecovery_eq {α : Type} (reason : Word) (s : Machine δ) :
    (enterRecovery p reason : Boot δ α) s = .error .recovery (recoveryState p reason s) := rfl

theorem recoverIf_true (reason : Word) (s : Machine δ) {failed : Bool} (h : failed = true) :
    recoverIf p failed reason s = .error .recovery (recoveryState p reason s) := by
  rw [recoverIf, if_pos h]
  rfl

theorem recoverIf_false (reason : Word) (s : Machine δ) {failed : Bool} (h : failed = false) :
    recoverIf p failed reason s = .ok () s := by
  rw [recoverIf, if_neg (by simp [h])]
  rfl

/-! ## The hash over memory -/

theorem inFrame_iff (a : Nat) : inFrame a = true ↔ 0x8800FDC0 ≤ a ∧ a < 0x8800FFE0 := by
  rw [inFrame, Bool.and_eq_true, decide_eq_true_eq, decide_eq_true_eq]
  exact Iff.rfl

/-- The bytes the hash reads from a range: what its own frames hold is up to the compiler. -/
def messageAt (s : Machine δ) (a n : Nat) : List Byte :=
  Memory.read (fun x => if inFrame x then p.frames.during s.dev x else s.mem x) a n

theorem loadMessage_ram (a n : Nat) (s : Machine δ) (h : p.RamRange a n) :
    loadMessage p a n s = .ok (messageAt p s a n) s := by
  induction n generalizing a with
  | zero => rfl
  | succ n ih =>
      have hrest := ih (a + 1) (h.mono (by omega) (by omega))
      rw [loadMessage, bind_of_ok (loadByte_ram p a s (h a (by omega) (by omega))),
        bind_of_ok (get_apply s), bind_of_ok hrest, pure_apply, messageAt, messageAt,
        Memory.read_succ]

theorem messageAt_of_outside (s : Machine δ) (a n : Nat)
    (h : ∀ x, a ≤ x → x < a + n → ¬ inFrame x = true) : messageAt p s a n = s.mem.read a n := by
  apply Memory.read_congr
  intro i hi
  exact if_neg (h (a + i) (by omega) (by omega))

@[simp] theorem ctxImage_length (ctx : Sha256.Sha256Ctx) : (ctxImage ctx).length = 112 := by
  simp only [ctxImage, List.length_append, flatMap_leBytes_length, Vector.length_toList,
    List.length_map, List.length_range]

theorem stackAfter_changedOnly (ctx : Sha256.Sha256Ctx) (s : Machine δ) :
    Memory.ChangedOnly (fun x => inFrame x = true) s.mem (stackAfter p ctx s) := by
  intro x hx
  have hout : ¬ (0x8800FDC0 ≤ x ∧ x < 0x8800FFE0) := fun h => hx ((inFrame_iff x).mpr h)
  have haddr := addresses
  rw [stackAfter, Memory.write_apply_of_outside, if_neg hx]
  rw [ctxImage_length]
  omega

/-- The object of a finished hash over `msg` is still on the stack. -/
def HashLeft (mem : Memory) (msg : List Byte) : Prop :=
  ∃ ctx, Sha256.Spent ctx msg ∧ mem.read CTX_BASE 112 = ctxImage ctx

/-- A call of `sha256_hash` stores the digest, disturbs nothing but its own frames and leaves the
object in them. -/
theorem sha256Hash_left (data len digest : Nat) (s : Machine δ) (hdata : p.RamRange data len)
    (hdigest : p.RamRange digest 32) :
    ∃ mem, HashLeft mem (messageAt p s data len) ∧
      sha256Hash p data len digest s = .ok () { s with mem := mem } ∧
      Memory.ChangedOnly (fun x => inFrame x = true)
        (s.mem.write digest (Fips180.sha256 (messageAt p s data len))) mem := by
  obtain ⟨ctx, hctx, hspent⟩ :=
    Sha256.sha256Hash_spent (p.frames.stale s.dev) (messageAt p s data len)
  have hstore := storeBytes_ram p digest (Fips180.sha256 (messageAt p s data len)) s
    (by rwa [Fips180.sha256_length])
  refine ⟨stackAfter p ctx
    { s with mem := s.mem.write digest (Fips180.sha256 (messageAt p s data len)) },
    ⟨ctx, hspent, ?_⟩, ?_, stackAfter_changedOnly p ctx _⟩
  · exact Memory.read_write_same_of_length _ _ _ _ (ctxImage_length ctx)
  · rw [sha256Hash, bind_of_ok (loadMessage_ram p data len s hdata), bind_of_ok (get_apply s)]
    simp only [hctx]
    rw [bind_of_ok hstore]
    rfl

end SecureBoot.Bootrom
