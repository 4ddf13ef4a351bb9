import Mathlib.Tactic.IntervalCases
import SecureBoot.Bootrom.Stages

/-!
# From the loaded payload to the kernel

The second half of Stage 3, the clearing of the scratch buffers, the PMP lock
and the jump, again as equations.
-/

namespace SecureBoot.Bootrom

open Words Exec

variable {σ : Type} (soc : Soc σ)

/-! ## Stage 3 after the load -/

def HashScratch (x : Nat) : Prop := Within KERNEL_HASH_BUFFER 32 x ∨ inFrame x = true

theorem hashScratch_iff (x : Nat) :
    HashScratch x ↔ (0x88000380 ≤ x ∧ x < 0x880003A0) ∨ (0x8800FDC0 ≤ x ∧ x < 0x8800FFE0) := by
  rw [HashScratch, inFrame_iff]
  exact Iff.rfl

/-- Size and hash are those of the manifest buffer after the load. -/
theorem verifyPayload_left (load : Nat) (s : Machine (Devices σ))
    (hram : soc.platform.RamRange load (Manifest.ofMem s.mem).payloadSize) :
    ∃ mem, HashLeft mem (messageAt soc.platform s load (Manifest.ofMem s.mem).payloadSize) ∧
      Memory.ChangedOnly HashScratch s.mem mem ∧
      verifyPayload soc.platform MANIFEST_BUFFER load s =
        if Fips180.sha256 (messageAt soc.platform s load (Manifest.ofMem s.mem).payloadSize) =
            (Manifest.ofMem s.mem).payloadHash then
          .ok () { s with mem := mem }
        else .error .recovery (recoveryState soc.platform SR_LOAD_KERNEL
          { s with mem := mem }) := by
  have haddr := addresses
  have hsize : (s.mem.word (MANIFEST_BUFFER + PAYLOAD_SIZE)).toNat =
      (Manifest.ofMem s.mem).payloadSize := by
    rw [Manifest.payloadSize, Manifest.ofMem_word _ _ (by decide)]
  obtain ⟨mem, hleft, hhash, hmem⟩ := sha256Hash_left soc.platform load
    (Manifest.ofMem s.mem).payloadSize KERNEL_HASH_BUFFER s hram (soc.bufferRam _ _)
  have hsame := sameBytes_ram soc.platform KERNEL_HASH_BUFFER (MANIFEST_BUFFER + PAYLOAD_HASH) 32
    { s with mem := mem } (soc.bufferRam _ _)
    (soc.bufferRam _ _)
  have hdigest : mem.read KERNEL_HASH_BUFFER 32 =
      Fips180.sha256 (messageAt soc.platform s load (Manifest.ofMem s.mem).payloadSize) := by
    refine (hmem.read_eq ?_).trans
      (Memory.read_write_same_of_length _ _ _ _ (Fips180.sha256_length _))
    intro x h₁ h₂ hframe
    rw [inFrame_iff] at hframe
    omega
  have hexpected : mem.read (MANIFEST_BUFFER + PAYLOAD_HASH) 32 =
      (Manifest.ofMem s.mem).payloadHash := by
    rw [Manifest.ofMem_payloadHash]
    refine (hmem.read_eq ?_).trans (Memory.read_write_disjoint _ _ _ _ _ ?_)
    · intro x h₁ h₂ hframe
      rw [inFrame_iff] at hframe
      have hoff : PAYLOAD_HASH = 32 := rfl
      omega
    · have hoff : PAYLOAD_HASH = 32 := rfl
      omega
  refine ⟨mem, hleft, ?_, ?_⟩
  · refine (Memory.write_changedOnly _ _ _ ?_).trans (hmem.mono fun x hx => .inr hx)
    intro x h₁ h₂
    rw [Fips180.sha256_length] at h₂
    exact .inl ⟨h₁, h₂⟩
  · rw [verifyPayload, bind_of_ok (loadWord_ram _ _ s (soc.bufferRam _ _)),
      hsize, bind_of_ok hhash, show SHA256_DIGEST_SIZE = 32 from rfl, bind_of_ok hsame, hdigest,
      hexpected]
    by_cases heq : Fips180.sha256
        (messageAt soc.platform s load (Manifest.ofMem s.mem).payloadSize) =
          (Manifest.ofMem s.mem).payloadHash
    · rw [if_pos heq]
      exact recoverIf_false _ _ _ (by simp [heq])
    · rw [if_neg heq]
      exact recoverIf_true _ _ _ (by simp [heq])

theorem verifyPayload_eq (load : Nat) (s : Machine (Devices σ))
    (hram : soc.platform.RamRange load (Manifest.ofMem s.mem).payloadSize) :
    ∃ mem, Memory.ChangedOnly HashScratch s.mem mem ∧
      verifyPayload soc.platform MANIFEST_BUFFER load s =
        if Fips180.sha256 (messageAt soc.platform s load (Manifest.ofMem s.mem).payloadSize) =
            (Manifest.ofMem s.mem).payloadHash then
          .ok () { s with mem := mem }
        else .error .recovery (recoveryState soc.platform SR_LOAD_KERNEL
          { s with mem := mem }) := by
  obtain ⟨mem, _, hmem, heq⟩ := verifyPayload_left soc load s hram
  exact ⟨mem, hmem, heq⟩

/-! ## Clearing -/

/-- The seven scratch buffers. -/
def Scratch (x : Nat) : Prop :=
  Within MANIFEST_BUFFER 96 x ∨ Within SIGNATURE_BUFFER 64 x ∨ Within PUBLIC_KEY_BUFFER 32 x ∨
    Within PUBLIC_KEY_HASH 32 x ∨ Within OTP_HASH_BUFFER 32 x ∨ Within KERNEL_HASH_BUFFER 32 x ∨
    Within KERNEL_CHUNK 512 x

theorem scratch_iff (x : Nat) :
    Scratch x ↔ (0x88000000 ≤ x ∧ x < 0x88000060) ∨ (0x88000100 ≤ x ∧ x < 0x88000140) ∨
      (0x88000200 ≤ x ∧ x < 0x88000220) ∨ (0x88000300 ≤ x ∧ x < 0x88000320) ∨
      (0x88000340 ≤ x ∧ x < 0x88000360) ∨ (0x88000380 ≤ x ∧ x < 0x880003A0) ∨
      (0x88000400 ≤ x ∧ x < 0x88000600) := Iff.rfl

def zeroed (mem : Memory) (a n : Nat) : Memory := mem.write a (List.replicate n 0)

theorem zeroed_apply (mem : Memory) (a n x : Nat) :
    zeroed mem a n x = if a ≤ x ∧ x < a + n then 0 else mem x := by
  rw [zeroed, Memory.write, List.length_replicate]
  by_cases h : a ≤ x ∧ x < a + n
  · rw [if_pos h, if_pos h, List.getD_eq_getElem?_getD, List.getElem?_replicate,
      if_pos (by omega)]
    rfl
  · rw [if_neg h, if_neg h]

def clearedMem (mem : Memory) : Memory :=
  zeroed (zeroed (zeroed (zeroed (zeroed (zeroed (zeroed mem MANIFEST_BUFFER 96)
    SIGNATURE_BUFFER 64) PUBLIC_KEY_BUFFER 32) PUBLIC_KEY_HASH 32) OTP_HASH_BUFFER 32)
    KERNEL_HASH_BUFFER 32) KERNEL_CHUNK 512

theorem clearedMem_scratch (mem : Memory) (x : Nat) (h : Scratch x) : clearedMem mem x = 0 := by
  simp only [clearedMem, zeroed_apply]
  unfold Scratch Within at h
  grind

theorem clearedMem_changedOnly (mem : Memory) :
    Memory.ChangedOnly Scratch mem (clearedMem mem) := by
  intro x hx
  simp only [clearedMem, zeroed_apply]
  unfold Scratch Within at hx
  grind

theorem clearScratch_eq (s : Machine (Devices σ)) :
    clearScratch soc.platform s = .ok () { s with mem := clearedMem s.mem } := by
  have hclear : ∀ (a n : Nat) (s : Machine (Devices σ)), 0x80000000 ≤ a → a + n ≤ 0x90000000 →
      clearBytes soc.platform a n s = .ok () { s with mem := zeroed s.mem a n } :=
    fun a n s h₁ h₂ => clearBytes_ram soc.platform a n s (soc.ramRange a n h₁ h₂)
  rw [clearScratch, bind_of_ok (hclear _ _ s (by decide) (by decide)),
    bind_of_ok (hclear _ _ _ (by decide) (by decide)),
    bind_of_ok (hclear _ _ _ (by decide) (by decide)),
    bind_of_ok (hclear _ _ _ (by decide) (by decide)),
    bind_of_ok (hclear _ _ _ (by decide) (by decide)),
    bind_of_ok (hclear _ _ _ (by decide) (by decide)),
    hclear _ _ _ (by decide) (by decide)]
  rfl

/-! ## PMP lock and jump -/

/-- The four regions and the configuration bytes of `lock_pmp`. -/
def lockedPmp (pmp : Pmp) : Pmp :=
  ((((((pmp.writeAddr 0 0x5FFF).writeAddr 1 0x3C000003).writeAddr 2 0x3C000400).writeAddr 3
    0x7FFFFFFFFFFFF).writeCfg 8 0x8080808080808080).writeCfg 0 0x808080809F98989D)

theorem locked_writeCfgByte (pmp : Pmp) (j i : Nat) (value : Byte) (hj : j < 16)
    (hvalue : value.getLsbD 7 = true) (h : pmp.locked i = true ∨ i = j) :
    (pmp.writeCfgByte j value).locked i = true := by
  unfold Pmp.writeCfgByte
  by_cases hlocked : pmp.locked j = true
  · rw [if_pos hlocked]
    cases h with
    | inl hi => exact hi
    | inr hij => rw [hij, hlocked]
  · rw [if_neg hlocked, Pmp.locked, Vector.toList_setIfInBounds, List.getD_eq_getElem?_getD,
      List.getElem?_set]
    by_cases hij : j = i
    · subst hij
      rw [if_pos rfl, if_pos (by simpa using hj)]
      exact hvalue
    · rw [if_neg hij]
      exact h.resolve_right fun heq => hij heq.symm

/-- A configuration write with every lock bit set locks its eight entries for good. -/
theorem locked_writeCfg (pmp : Pmp) (first i : Nat) (value : DWord) (hfirst : first + 8 ≤ 16)
    (hvalue : ∀ k < 8, (byteAt value k).getLsbD 7 = true)
    (h : pmp.locked i = true ∨ (first ≤ i ∧ i < first + 8)) :
    (pmp.writeCfg first value).locked i = true := by
  have hfold : ∀ (l : List Nat) (pmp : Pmp), (∀ k ∈ l, k < 8) →
      pmp.locked i = true ∨ (∃ k ∈ l, i = first + k) →
      (l.foldl (fun pmp k => pmp.writeCfgByte (first + k) (byteAt value k)) pmp).locked i =
        true := by
    intro l
    induction l with
    | nil =>
        intro pmp _ hi
        exact hi.resolve_right fun ⟨_, hk, _⟩ => nomatch hk
    | cons k l ih =>
        intro pmp hl hi
        have hk := hl k List.mem_cons_self
        refine ih _ (fun j hj => hl j (List.mem_cons_of_mem k hj)) ?_
        rcases hi with hi | ⟨j, hj, hij⟩
        · exact .inl (locked_writeCfgByte _ _ _ _ (by omega) (hvalue k hk) (.inl hi))
        · rcases List.mem_cons.mp hj with hjk | hjl
          · rw [hjk] at hij
            exact .inl (locked_writeCfgByte _ _ _ _ (by omega) (hvalue k hk) (.inr hij))
          · exact .inr ⟨j, hjl, hij⟩
  apply hfold
  · intro k hk
    exact List.mem_range.mp hk
  · rcases h with h | ⟨h₁, h₂⟩
    · exact .inl h
    · exact .inr ⟨i - first, List.mem_range.mpr (by omega), by omega⟩

/-- After `lock_pmp` no entry can be written again before reset. -/
theorem lockedPmp_locked (pmp : Pmp) (i : Nat) (hi : i < 16) :
    (lockedPmp pmp).locked i = true := by
  have hhigh : 8 ≤ i → (((((pmp.writeAddr 0 0x5FFF).writeAddr 1 0x3C000003).writeAddr 2
      0x3C000400).writeAddr 3 0x7FFFFFFFFFFFF).writeCfg 8 0x8080808080808080).locked i = true :=
    fun h => locked_writeCfg _ 8 i _ (by decide) (by decide) (.inr ⟨h, by omega⟩)
  apply locked_writeCfg _ 0 i _ (by decide) (by decide)
  by_cases h : 8 ≤ i
  · exact .inl (hhigh h)
  · exact .inr ⟨by omega, by omega⟩

/-- What `lock_pmp` makes of entries that were OFF and unlocked: four regions, the other twelve
locked OFF over the address registers they had. -/
def bootPmp (addr : Vector DWord 16) : Pmp where
  cfg := #v[0x9D, 0x98, 0x98, 0x9F, 0x80, 0x80, 0x80, 0x80,
    0x80, 0x80, 0x80, 0x80, 0x80, 0x80, 0x80, 0x80]
  addr := #v[0x5FFF, 0x3C000003, 0x3C000400, 0x7FFFFFFFFFFFF, addr[4], addr[5], addr[6], addr[7],
    addr[8], addr[9], addr[10], addr[11], addr[12], addr[13], addr[14], addr[15]]

theorem writeAddr_off {pmp : Pmp} (h : pmp.Off) {i : Nat} (hi : i + 1 < 16) (value : DWord) :
    pmp.writeAddr i value = { pmp with addr := pmp.addr.setIfInBounds i value } := by
  rw [Pmp.writeAddr, (h i (by omega)).1, (h (i + 1) hi).1]
  rfl

/-- Bytes stored one after another each stay where they were put. -/
theorem getElem_foldl_set (first : Nat) (f : Nat → Byte) (l : List Nat) (cfg : Vector Byte 16)
    (i : Nat) (hi : i < 16) :
    (l.foldl (fun cfg k => cfg.setIfInBounds (first + k) (f k)) cfg)[i] =
      if first ≤ i ∧ i - first ∈ l then f (i - first) else cfg[i] := by
  induction l generalizing cfg with
  | nil => simp
  | cons k l ih =>
      rw [List.foldl_cons, ih, Vector.getElem_setIfInBounds]
      by_cases hk : first + k = i
      · subst hk
        simp
      · have hne : ¬ (first ≤ i ∧ i - first = k) := by omega
        rw [if_neg hk]
        congr 1
        grind

/-- Each byte is written while its own entry is unlocked still. -/
theorem writeCfg_unlocked {pmp : Pmp} {first : Nat}
    (h : ∀ i, first ≤ i → i < first + 8 → pmp.locked i = false) (value : DWord) :
    pmp.writeCfg first value =
      ⟨(List.range 8).foldl (fun cfg k => cfg.setIfInBounds (first + k) (byteAt value k)) pmp.cfg,
        pmp.addr⟩ := by
  have hfold : ∀ (l : List Nat) (pmp : Pmp), l.Nodup →
      (∀ k ∈ l, pmp.locked (first + k) = false) →
      l.foldl (fun pmp k => pmp.writeCfgByte (first + k) (byteAt value k)) pmp =
        ⟨l.foldl (fun cfg k => cfg.setIfInBounds (first + k) (byteAt value k)) pmp.cfg,
          pmp.addr⟩ := by
    intro l
    induction l with
    | nil => exact fun _ _ _ => rfl
    | cons k l ih =>
        intro pmp hnodup hopen
        obtain ⟨hk, hnodup⟩ := List.nodup_cons.mp hnodup
        have hbyte : pmp.writeCfgByte (first + k) (byteAt value k) =
            { pmp with cfg := pmp.cfg.setIfInBounds (first + k) (byteAt value k) } := by
          rw [Pmp.writeCfgByte, hopen k List.mem_cons_self]
          rfl
        rw [List.foldl_cons, List.foldl_cons, hbyte, ih _ hnodup]
        intro j hj
        have hne : first + k ≠ first + j := fun heq => hk (by rwa [Nat.add_left_cancel heq])
        rw [Pmp.locked, Vector.toList_setIfInBounds, List.getD_eq_getElem?_getD,
          List.getElem?_set_ne hne, ← List.getD_eq_getElem?_getD]
        exact hopen j (List.mem_cons_of_mem k hj)
  refine hfold _ pmp List.nodup_range ?_
  intro k hk
  have hlt := List.mem_range.mp hk
  exact h _ (by omega) (by omega)

theorem Pmp.locked_eq (pmp : Pmp) (i : Nat) (hi : i < 16) :
    pmp.locked i = pmp.cfg[i].getLsbD 7 := by
  rw [Pmp.locked, List.getD_eq_getElem?_getD, List.getElem?_eq_getElem (by simpa using hi),
    Option.getD_some, Vector.getElem_toList]

theorem lockedPmp_off {pmp : Pmp} (h : pmp.Off) : lockedPmp pmp = bootPmp pmp.addr := by
  have hoff : ∀ addr : Vector DWord 16, Pmp.Off ⟨pmp.cfg, addr⟩ := fun _ => h
  rw [lockedPmp, writeAddr_off h (by omega), writeAddr_off (hoff _) (by omega),
    writeAddr_off (hoff _) (by omega), writeAddr_off (hoff _) (by omega),
    writeCfg_unlocked fun i _ hi => (hoff _ i hi).1, writeCfg_unlocked]
  · rw [bootPmp, Pmp.mk.injEq]
    constructor
    · ext i hi : 1
      rw [getElem_foldl_set, getElem_foldl_set]
      interval_cases i <;> rfl
    · ext i hi : 1
      simp only [Vector.getElem_setIfInBounds]
      interval_cases i <;> rfl
  · -- the upper register leaves the lower eight entries unlocked
    intro i _ hi
    have hunlocked := (h i (by omega)).1
    rw [Pmp.locked_eq _ _ (by omega)] at hunlocked ⊢
    rw [getElem_foldl_set, if_neg (by omega)]
    exact hunlocked

theorem bootPmp_locked (addr : Vector DWord 16) (i : Nat) (hi : i < 16) :
    (bootPmp addr).locked i = true := by
  -- the lock bits do not depend on the addresses
  have hzero : ∀ i < 16, (bootPmp Pmp.zero.addr).locked i = true := by decide
  exact hzero i hi

/-- Setting and clearing the bit leaves it clear. -/
theorem lock_status (status : Word) :
    (status ||| SR_LOCK_PMP) &&& ~~~SR_LOCK_PMP = status &&& ~~~SR_LOCK_PMP := by
  rw [BitVec.and_or_distrib_right, BitVec.and_not_self]
  exact BitVec.or_zero

theorem lockPmp_eq (s : Machine (Devices σ)) :
    lockPmp soc.platform s =
      .ok () { s with
        dev := { s.dev with status := s.dev.status &&& ~~~SR_LOCK_PMP }
        mtvec := RECOVERY_ENTRY
        pmp := lockedPmp s.pmp } := by
  rw [← lock_status]
  rfl

/-- The machine at the `mret` of `jump_to_kernel`. -/
def kernelState (s : Machine (Devices σ)) : Machine (Devices σ) where
  mem := clearedMem s.mem
  dev := { s.dev with
    counter := RollbackCounter.write s.dev.counter (Manifest.ofMem s.mem).version
    status := s.dev.status &&& ~~~SR_LOCK_PMP }
  mtvec := RECOVERY_ENTRY
  mepc := 0x80000000
  mstatus := s.mstatus ||| 0x1800
  a0 := soc.hartid
  a1 := 0
  pmp := lockedPmp s.pmp

@[simp] theorem kernelState_mem (s : Machine (Devices σ)) :
    (kernelState soc s).mem = clearedMem s.mem := rfl

@[simp] theorem kernelState_mepc (s : Machine (Devices σ)) :
    (kernelState soc s).mepc = 0x80000000 := rfl

/-! ## The rest of `bootrom_main` after Stage 3 -/

def afterLoad {δ : Type} (p : Platform δ) : Boot δ Unit := do
  checkRollbackCounter p MANIFEST_BUFFER
  clearScratch p
  lockPmp p
  jumpToKernel p 0x80000000
  halt

theorem version_ofMem (mem : Memory) : manifestVersion mem = (Manifest.ofMem mem).version := by
  rw [Manifest.version, Manifest.ofMem_word _ _ (by decide)]
  rfl

theorem afterLoad_refuses (s : Machine (Devices σ))
    (h : (Manifest.ofMem s.mem).version < s.dev.counter) :
    afterLoad soc.platform s =
      .error .recovery (recoveryState soc.platform SR_ROLLBACK_COUNTER s) := by
  rw [← version_ofMem] at h
  rw [afterLoad, bind_of_error (checkRollbackCounter_refuses soc s h)]

theorem afterLoad_accepts (s : Machine (Devices σ))
    (h : s.dev.counter ≤ (Manifest.ofMem s.mem).version) :
    afterLoad soc.platform s = .error .kernel (kernelState soc s) := by
  have hstage := checkRollbackCounter_accepts soc s (by rwa [version_ofMem])
  rw [afterLoad, bind_of_ok hstage, bind_of_ok (clearScratch_eq soc _),
    bind_of_ok (lockPmp_eq soc _)]
  rw [kernelState, ← version_ofMem]
  rfl

end SecureBoot.Bootrom
