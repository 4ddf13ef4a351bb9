import SecureBoot.Startup.Outline

/-!
# The steps of the harts

Every instruction leads from its annotation to the next one and closer to `bootrom_main`, and so
does every interrupt.
-/

namespace SecureBoot.Startup

/-! ## `_hang` -/

/-- Delegation and spurious interrupts do not matter. -/
theorem exec_delegate {n k : Nat} {s : State} (hlow : 12 ≤ (s.harts k).pc)
    (hhigh : (s.harts k).pc ≤ 18) :
    ∃ i h, text[(s.harts k).pc]? = some i ∧ exec n k s i = some (s.setHart k h) ∧
      ((s.harts k).pc < h.pc ∧ h.pc ≤ 19) ∧ h.mstatus = (s.harts k).mstatus ∧
      h.mtvec = (s.harts k).mtvec := by
  have hpc : (s.harts k).pc = 12 ∨ (s.harts k).pc = 13 ∨ (s.harts k).pc = 14 ∨
      (s.harts k).pc = 15 ∨ (s.harts k).pc = 16 ∨ (s.harts k).pc = 17 ∨ (s.harts k).pc = 18 := by
    omega
  rcases hpc with pc | pc | pc | pc | pc | pc | pc
  · have hi : text[(s.harts k).pc]? = some (.csrr .t0 .misa) := by rw [pc]; rfl
    exact ⟨_, _, hi, rfl, by simp [Hart.set, pc], rfl, rfl⟩
  · have hi : text[(s.harts k).pc]? = some (.srai .t0 .t0 18) := by rw [pc]; rfl
    exact ⟨_, _, hi, rfl, by simp [Hart.set, pc], rfl, rfl⟩
  · have hi : text[(s.harts k).pc]? = some (.andi .t0 .t0 1) := by rw [pc]; rfl
    exact ⟨_, _, hi, rfl, by simp [Hart.set, pc], rfl, rfl⟩
  · have hi : text[(s.harts k).pc]? = some (.beqz .t0 19) := by rw [pc]; rfl
    refine ⟨_, _, hi, rfl, ?_, rfl, rfl⟩
    simp only [Hart.jump, pc]
    split
    · omega
    · omega
  · have hi : text[(s.harts k).pc]? = some (.csrw .mideleg .zero) := by rw [pc]; rfl
    exact ⟨_, _, hi, rfl, by simp [Hart.writeCsr, Hart.next, pc], rfl, rfl⟩
  · have hi : text[(s.harts k).pc]? = some (.li .a0 0x222) := by rw [pc]; rfl
    exact ⟨_, _, hi, rfl, by simp [Hart.set, pc], rfl, rfl⟩
  · have hi : text[(s.harts k).pc]? = some (.csrc .mip .a0) := by rw [pc]; rfl
    exact ⟨_, _, hi, rfl, by simp [Hart.writeCsr, Hart.next, pc], rfl, rfl⟩

theorem toGo_hang (n : Nat) (busy : Bool) {h : Hart} (hlow : 10 ≤ h.pc) (hhigh : h.pc ≤ 23) :
    toGo n busy h = 4 * n + 10 + (22 - h.pc) := by
  unfold toGo
  split
  all_goals first | rfl | omega

/-- In `_hang` a hart only gets ready for its interrupt. -/
theorem exec_sleeping {n k : Nat} {s : State} (hk : k < n) (hinv : Inv n s)
    (hat : Sleeping (s.harts k)) : Goes n s k := by
  have hmove : ∀ {i : Instr} {h : Hart}, text[(s.harts k).pc]? = some i →
      exec n k s i = some (s.setHart k h) → h.pc < 30 → (s.harts k).pc < 30 → Sleeping h →
      ((s.harts k).pc = 22 ∨ (s.harts k).pc = 23) ∧ (h.pc = 22 ∨ h.pc = 23) ∨
        10 ≤ (s.harts k).pc ∧ (s.harts k).pc < h.pc ∧ h.pc ≤ 22 → Goes n s k := by
    intro i h hi hexec hpc hpc' hs hlower
    apply goes_of_fetch hk hi hexec
    apply Taken.move hinv ⟨fun h => absurd h (not_cleared rfl hpc),
      fun h => absurd h (not_cleared rfl hpc')⟩ (.sleeping hs)
    rcases hlower with ⟨hwait, hnext⟩ | hlower
    · left
      refine ⟨hwait.elim .inl fun h₂₃ => .inr (.inl h₂₃), ?_⟩
      rw [toGo_hang n _ (by omega) (by omega), toGo_hang n _ (by omega) (by omega)]
      omega
    · right
      rw [toGo_hang n _ (by omega) (by omega), toGo_hang n _ (by omega) (by omega)]
      omega
  cases hat with
  | entry pc off =>
      have hi : text[(s.harts k).pc]? = some (.la .a0 START) := by rw [pc]; rfl
      apply hmove hi rfl
      · simp [Hart.set, pc]
      · simp [pc]
      · exact .vector (by simp [Hart.set, pc]) off (by simp [Hart.set, START])
      · simp [Hart.set, pc]
  | vector pc off a0 =>
      have hi : text[(s.harts k).pc]? = some (.csrw .mtvec .a0) := by rw [pc]; rfl
      apply hmove hi rfl
      · simp [Hart.writeCsr, Hart.next, pc]
      · simp [pc]
      · exact .delegate (by simp [Hart.writeCsr, Hart.next, pc]) off a0
      · simp [Hart.writeCsr, Hart.next, pc]
  | delegate pc off mtvec =>
      by_cases hlast : (s.harts k).pc = 19
      · have hi : text[(s.harts k).pc]? = some (.li .a0 8) := by rw [hlast]; rfl
        apply hmove hi rfl
        · simp [Hart.set, hlast]
        · simp [hlast]
        · exact .mask (by simp [Hart.set, hlast]) off mtvec (by simp [Hart.set])
        · simp [Hart.set, hlast]
      · rcases exec_delegate (n := n) pc.1 (by omega) with
          ⟨i, h, hi, hexec, hpc, hmstatus, hmtvec⟩
        apply hmove hi hexec (by omega) (by omega)
        · exact .delegate (by omega) (hmstatus ▸ off) (hmtvec ▸ mtvec)
        · omega
  | mask pc off mtvec a0 =>
      have hi : text[(s.harts k).pc]? = some (.csrw .mie .a0) := by rw [pc]; rfl
      apply hmove hi rfl
      · simp [Hart.writeCsr, Hart.next, pc]
      · simp [pc]
      · exact .enable (by simp [Hart.writeCsr, Hart.next, pc]) mtvec
          (by simp [Hart.writeCsr, Hart.get, a0]) off a0
      · simp [Hart.writeCsr, Hart.next, pc]
  | enable pc mtvec mie off a0 =>
      have hi : text[(s.harts k).pc]? = some (.csrs .mstatus .a0) := by rw [pc]; rfl
      apply hmove hi rfl
      · simp [Hart.writeCsr, Hart.next, pc]
      · simp [pc]
      · exact .wait (by simp [Hart.writeCsr, Hart.next, pc]) mtvec mie
          (by simp [Hart.writeCsr, Hart.readCsr, Hart.get, a0])
      · simp [Hart.writeCsr, Hart.next, pc]
  | wait pc mtvec mie on =>
      rcases pc with pc | pc
      · have hi : text[(s.harts k).pc]? = some .wfi := by rw [pc]; rfl
        apply hmove hi rfl
        · simp [Hart.next, pc]
        · simp [pc]
        · exact .wait (.inr (by simp [Hart.next, pc])) mtvec mie on
        · exact .inl ⟨.inl pc, .inr (by simp [Hart.next, pc])⟩
      · have hi : text[(s.harts k).pc]? = some (.j WFI_LOOP) := by rw [pc]; rfl
        apply hmove hi rfl
        · simp [Hart.jump, WFI_LOOP]
        · simp [pc]
        · exact .wait (.inl (by simp [Hart.jump, WFI_LOOP])) mtvec mie on
        · exact .inl ⟨.inr pc, .inl (by simp [Hart.jump, WFI_LOOP])⟩

/-! ## The two stores -/

/-- The others are behind the store only after hart 0. -/
theorem Inv.first_cleared {n : Nat} {s : State} (hinv : Inv n s) {i : Nat} (hi : i < n)
    (hother : 1 ≤ i) (hc : Cleared (s.harts i)) : Cleared (s.harts 0) := by
  have hmain : BOOTROM_MAIN = 34 := rfl
  unfold Cleared at hc
  cases hinv.outline i hi with
  | sleeping hat => cases hat <;> omega
  | awake raised off hat =>
      cases hat with
      | stack pc permit => exact permit.2 hother
      | call pc sp permit => exact permit.2 hother
      | main pc sp permit => exact permit.2 hother
      | _ => omega

/-- The store of the interrupt loop. -/
theorem taken_signal {n k : Nat} {s : State} (hinv : Inv n s) (raised : s.raised = true)
    (off : (s.harts k).mstatus.getLsbD 3 = false) (pc : (s.harts k).pc = 5) (first : k = 0)
    (a1 : (s.harts k).regs .a1 = msipAddr 0) {j : Nat} (pos : 1 ≤ j) (le : j ≤ n)
    (a2 : (s.harts k).regs .a2 = msipAddr j) (woken : WokenBelow n s j) :
    Taken n s k ((s.writeMsip n j 1).setHart k (s.harts k).next) := by
  have hnext : (s.harts k).next.pc = 6 := by simp [Hart.next, pc]
  have hmsip : ∀ i, s.msip i = true → (s.writeMsip n j 1).msip i = true := by
    intro i hi
    rw [writeMsip_msip]
    split
    · rfl
    · exact hi
  have hmove : Ahead (s.writeMsip n j 1) ((s.writeMsip n j 1).setHart k (s.harts k).next) := by
    apply Ahead.setHart
    intro hc
    rw [writeMsip_harts] at hc
    exact absurd hc (not_cleared pc (by omega))
  have hahead : Ahead s ((s.writeMsip n j 1).setHart k (s.harts k).next) := by
    refine ⟨fun h => by simpa using h, fun i hi => hmove.cleared i (by simpa using hi), ?_⟩
    intro i hi
    apply hmove.woken
    exact hi.imp (hmsip i) (fun h => by rwa [writeMsip_harts])
  refine ⟨hahead, ?_, fun i hi => ?_, by simp, fun _ _ => raised, ?_, ?_, ?_⟩
  · rw [setHart_self]
    refine .awake (hahead.raised raised) off (.advance hnext first a1 j pos le
      a2 fun i h₁ h₂ h₃ => ?_)
    by_cases hij : i = j
    · left
      rw [setHart_msip, writeMsip_msip, if_pos ⟨hij ▸ h₃, hij⟩]
      rfl
    · exact hahead.woken i (woken i h₁ (by omega) h₃)
  · rw [setHart_other _ _ hi, writeMsip_harts]
  · intro i hi hc
    have hik : i ≠ k := by
      intro hik
      rw [hik, setHart_self] at hc
      exact absurd hc (not_cleared hnext (by omega))
    rw [setHart_other _ _ hik, writeMsip_harts] at hc
    have hzero : ¬ Cleared (s.harts 0) := first ▸ not_cleared pc (by omega)
    rw [setHart_msip, writeMsip_msip, if_neg]
    · exact hinv.quiet i hi hc
    · intro h
      exact hzero (hinv.first_cleared hi (by omega) hc)
  · intro h
    rwa [setHart_msip, writeMsip_msip, if_neg (by omega)] at h
  · right
    rw [setHart_self]
    simp only [toGo, hnext, pc]
    exact Nat.lt_succ_self _

/-- The store of `boot_core_hart0`. -/
theorem taken_clear {n k : Nat} {s : State} (hinv : Inv n s) (hk : k < n)
    (raised : s.raised = true) (off : (s.harts k).mstatus.getLsbD 3 = false)
    (pc : (s.harts k).pc = 29) (permit : Permit n s k) :
    Taken n s k ((s.writeMsip n k 0).setHart k (s.harts k).next) := by
  have hpc : (s.harts k).next.pc = 30 := by simp [Hart.next, pc]
  have hnext : Cleared (s.harts k).next := .inl hpc
  have hmsip : ∀ i, i ≠ k → (s.writeMsip n k 0).msip i = s.msip i := by
    intro i hi
    rw [writeMsip_msip, if_neg fun h => hi h.2]
  have hcleared : ∀ i, Cleared (s.harts i) →
      Cleared (((s.writeMsip n k 0).setHart k (s.harts k).next).harts i) := by
    intro i hi
    by_cases hik : i = k
    · rwa [hik, setHart_self]
    · rwa [setHart_other _ _ hik, writeMsip_harts]
  have hahead : Ahead s ((s.writeMsip n k 0).setHart k (s.harts k).next) := by
    refine ⟨fun h => by simpa using h, hcleared, fun i hi => ?_⟩
    by_cases hik : i = k
    · right
      rwa [hik, setHart_self]
    · refine hi.imp (fun h => ?_) (hcleared i)
      rwa [setHart_msip, hmsip i hik]
  refine ⟨hahead, ?_, fun i hi => ?_, by simp, fun _ _ => raised, ?_, ?_, ?_⟩
  · rw [setHart_self]
    exact .awake (hahead.raised raised) off (.stack hpc (permit.mono hahead))
  · rw [setHart_other _ _ hi, writeMsip_harts]
  · intro i hi hc
    rw [setHart_msip]
    by_cases hik : i = k
    · rw [hik, writeMsip_msip, if_pos ⟨hk, rfl⟩]
      rfl
    · rw [setHart_other _ _ hik, writeMsip_harts] at hc
      rw [hmsip i hik]
      exact hinv.quiet i hi hc
  · intro h
    rw [setHart_msip, writeMsip_msip] at h
    split at h
    · cases h
    · exact h
  · right
    rw [setHart_self]
    simp [toGo, hpc, pc]

/-! ## `_start` and after -/

section Awake

variable {n k : Nat} {s : State} (hk : k < n) (hinv : Inv n s) (raised : s.raised = true)
  (off : (s.harts k).mstatus.getLsbD 3 = false)
include hk hinv raised off

/-- An instruction before the store of `boot_core_hart0` that only moves the hart. -/
theorem goes_of_move {i : Instr} {h : Hart} (hi : text[(s.harts k).pc]? = some i)
    (hexec : exec n k s i = some (s.setHart k h)) (hmstatus : h.mstatus = (s.harts k).mstatus)
    (hpc : h.pc < 30) (hpc' : (s.harts k).pc < 30) (hat : Awake n s k h)
    (hlower : Lowers n s k (s.msip 0) h) : Goes n s k := by
  apply goes_of_fetch hk hi hexec
  exact .move hinv ⟨fun h => absurd h (not_cleared rfl hpc),
    fun h => absurd h (not_cleared rfl hpc')⟩ (.awake raised (hmstatus ▸ off) hat) hlower

/-! ### `_start` -/

theorem goes_start (pc : (s.harts k).pc = 0) : Goes n s k := by
  have hi : text[(s.harts k).pc]? = some (.li .a1 0x2000000) := by rw [pc]; rfl
  apply goes_of_move hk hinv raised off hi rfl rfl
  · simp [Hart.set, pc]
  · simp [pc]
  · exact .hartid (by simp [Hart.set, pc]) (by simp [Hart.set, msipAddr, CLINT])
  · exact .inr (by simp [toGo, Hart.set, pc])

theorem goes_hartid (pc : (s.harts k).pc = 1) (a1 : (s.harts k).regs .a1 = msipAddr 0) :
    Goes n s k := by
  have hi : text[(s.harts k).pc]? = some (.csrr .a0 .mhartid) := by rw [pc]; rfl
  apply goes_of_move hk hinv raised off hi rfl rfl
  · simp [Hart.set, pc]
  · simp [pc]
  · exact .branch (by simp [Hart.set, pc]) (by simpa [Hart.set] using a1)
      (by simp [Hart.set, Hart.readCsr])
  · exact .inr (by simp [toGo, Hart.set, pc])

/-- Hart 0 goes on, the others go to `boot_core`. -/
theorem goes_branch (hn : n ≤ 4095) (pc : (s.harts k).pc = 2)
    (a1 : (s.harts k).regs .a1 = msipAddr 0) (a0 : (s.harts k).regs .a0 = BitVec.ofNat 64 k) :
    Goes n s k := by
  have hi : text[(s.harts k).pc]? = some (.bnez .a0 BOOT_CORE) := by rw [pc]; rfl
  have hid : BitVec.ofNat 64 k = 0#64 ↔ k = 0 := by
    rw [← BitVec.toNat_inj, BitVec.toNat_ofNat, Nat.mod_eq_of_lt (by omega)]
    rfl
  by_cases hzero : (s.harts k).regs .a0 = 0#64
  · have hnext : ((s.harts k).jump ((s.harts k).get .a0 != 0) BOOT_CORE).pc = 3 := by
      simp [Hart.jump, Hart.get, hzero, pc]
    apply goes_of_move hk hinv raised off hi rfl rfl
    · omega
    · omega
    · exact .second hnext (hid.mp (a0 ▸ hzero)) a1
    · right
      simp only [toGo, hnext, pc]
      omega
  · have hother : k ≠ 0 := fun h => hzero (a0.trans (hid.mpr h))
    have hnext : ((s.harts k).jump ((s.harts k).get .a0 != 0) BOOT_CORE).pc = 25 := by
      simp [Hart.jump, Hart.get, hzero, BOOT_CORE]
    apply goes_of_move hk hinv raised off hi rfl rfl
    · omega
    · omega
    · exact .poll hnext (by omega) a1 a0
    · right
      simp only [toGo, hnext, pc]
      split
      · omega
      · omega

theorem goes_second (pc : (s.harts k).pc = 3) (first : k = 0)
    (a1 : (s.harts k).regs .a1 = msipAddr 0) : Goes n s k := by
  have hi : text[(s.harts k).pc]? = some (.addi .a2 .a1 4) := by rw [pc]; rfl
  apply goes_of_move hk hinv raised off hi rfl rfl
  · simp [Hart.set, pc]
  · simp [pc]
  · exact .one (by simp [Hart.set, pc]) first (by simpa [Hart.set] using a1)
      (by simpa [Hart.set, Hart.get, a1] using msipAddr_succ 0)
  · exact .inr (by simp [toGo, Hart.set, pc])

theorem goes_one (pc : (s.harts k).pc = 4) (first : k = 0)
    (a1 : (s.harts k).regs .a1 = msipAddr 0) (a2 : (s.harts k).regs .a2 = msipAddr 1) :
    Goes n s k := by
  have hi : text[(s.harts k).pc]? = some (.li .a3 1) := by rw [pc]; rfl
  have htarget : ((s.harts k).set .a3 1).target = 1 :=
    target_of_a2 (by omega) (by simpa [Hart.set] using a2)
  have hnext : ((s.harts k).set .a3 1).pc = 5 := by simp [Hart.set, pc]
  apply goes_of_move hk hinv raised off hi rfl rfl
  · omega
  · omega
  · exact .signal hnext first (by simpa [Hart.set] using a1) 1 (by omega)
      (by omega) (by simpa [Hart.set] using a2) (by simp [Hart.set]) (fun i h₁ h₂ => by omega)
  · right
    simp only [toGo, hnext, htarget, pc]
    omega

/-! ### `interrupt_loop` -/

section Loop

variable (hn : n ≤ 4095) (first : k = 0) (a1 : (s.harts k).regs .a1 = msipAddr 0) {j : Nat}
  (pos : 1 ≤ j) (le : j ≤ n)
include hn first a1 pos le

theorem goes_signal (pc : (s.harts k).pc = 5) (a2 : (s.harts k).regs .a2 = msipAddr j)
    (a3 : (s.harts k).regs .a3 = 1) (woken : WokenBelow n s j) : Goes n s k := by
  have hi : text[(s.harts k).pc]? = some (.sw .a3 0 .a2) := by rw [pc]; rfl
  have haddr : (s.harts k).get .a2 + 0 = msipAddr j := (BitVec.add_zero _).trans a2
  have hexec : exec n k s (.sw .a3 0 .a2) =
      some ((s.writeMsip n j 1).setHart k (s.harts k).next) := by
    rw [exec_sw (by omega) haddr, show (s.harts k).get .a3 = 1 from a3]
  exact goes_of_fetch hk hi hexec (taken_signal hinv raised off pc first a1 pos le a2 woken)

theorem goes_advance (pc : (s.harts k).pc = 6) (a2 : (s.harts k).regs .a2 = msipAddr j)
    (woken : WokenBelow n s (j + 1)) : Goes n s k := by
  have hi : text[(s.harts k).pc]? = some (.addi .a2 .a2 4) := by rw [pc]; rfl
  have hsum : (s.harts k).get .a2 + 4 = msipAddr (j + 1) :=
    (congrArg (· + 4) a2).trans (msipAddr_succ j)
  have ha2 : ((s.harts k).set .a2 ((s.harts k).get .a2 + 4)).regs .a2 = msipAddr (j + 1) := hsum
  have hnext : ((s.harts k).set .a2 ((s.harts k).get .a2 + 4)).pc = 7 := by
    simp [Hart.set, pc]
  apply goes_of_move hk hinv raised off hi rfl rfl
  · omega
  · omega
  · exact .readback hnext first (by simpa [Hart.set] using a1) j pos le ha2 woken
  · right
    simp only [toGo, hnext, pc, target_of_a2 (by omega) ha2, target_of_a2 (by omega) a2]
    omega

/-- The word of the last hart reads 1, the one behind it 0. -/
theorem goes_readback (pc : (s.harts k).pc = 7) (a2 : (s.harts k).regs .a2 = msipAddr (j + 1))
    (woken : WokenBelow n s (j + 1)) : Goes n s k := by
  have hi : text[(s.harts k).pc]? = some (.lw .a3 (-4) .a2) := by rw [pc]; rfl
  have haddr : (s.harts k).get .a2 + -4 = msipAddr j :=
    (congrArg (· + -4) a2).trans (msipAddr_pred j)
  have hvalue : s.readMsip n j = if j < n then 1 else 0 := by
    rw [State.readMsip]
    by_cases hj : j < n
    · have hmsip : s.msip j = true := by
        rcases woken j pos (by omega) hj with h | h
        · exact h
        · have hzero := hinv.first_cleared hj pos h
          rw [← first] at hzero
          exact absurd hzero (not_cleared pc (by omega))
      rw [if_pos ⟨hj, hmsip⟩, if_pos hj]
    · rw [if_neg fun h => hj h.1, if_neg hj]
  have ha2 : ((s.harts k).set .a3 (s.readMsip n j)).regs .a2 = msipAddr (j + 1) := by
    simpa [Hart.set] using a2
  have hnext : ((s.harts k).set .a3 (s.readMsip n j)).pc = 8 := by simp [Hart.set, pc]
  apply goes_of_move hk hinv raised off hi (exec_lw (by omega) haddr) rfl
  · omega
  · omega
  · exact .test hnext first (by simpa [Hart.set] using a1) j pos le ha2
      (by simpa [Hart.set] using hvalue) woken
  · right
    simp only [toGo, hnext, pc, target_of_a2 (by omega) ha2, target_of_a2 (by omega) a2]
    omega

theorem goes_test (pc : (s.harts k).pc = 8) (a2 : (s.harts k).regs .a2 = msipAddr (j + 1))
    (a3 : (s.harts k).regs .a3 = if j < n then 1 else 0) (woken : WokenBelow n s (j + 1)) :
    Goes n s k := by
  have hi : text[(s.harts k).pc]? = some (.bnez .a3 INTERRUPT_LOOP) := by rw [pc]; rfl
  have htarget : ((s.harts k).jump ((s.harts k).get .a3 != 0) INTERRUPT_LOOP).target = j + 1 :=
    target_of_a2 (by omega) a2
  by_cases hmore : j < n
  · rw [if_pos hmore] at a3
    have hnext : ((s.harts k).jump ((s.harts k).get .a3 != 0) INTERRUPT_LOOP).pc = 5 := by
      simp [Hart.jump, Hart.get, a3, INTERRUPT_LOOP]
    apply goes_of_move hk hinv raised off hi rfl rfl
    · omega
    · omega
    · exact .signal hnext first a1 (j + 1) (by omega) (by omega) a2 a3 woken
    · right
      simp only [toGo, hnext, pc, htarget, target_of_a2 (by omega) a2]
      omega
  · rw [if_neg hmore] at a3
    have hnext : ((s.harts k).jump ((s.harts k).get .a3 != 0) INTERRUPT_LOOP).pc = 9 := by
      simp [Hart.jump, Hart.get, a3, pc]
    apply goes_of_move hk hinv raised off hi rfl rfl
    · omega
    · omega
    · exact .leave hnext first a1 fun i h₁ h₂ h₃ => woken i h₁ (by omega) h₃
    · right
      simp only [toGo, hnext, pc]
      omega

end Loop

theorem goes_leave (pc : (s.harts k).pc = 9) (first : k = 0)
    (a1 : (s.harts k).regs .a1 = msipAddr 0) (woken : AllWoken n s) : Goes n s k := by
  have hi : text[(s.harts k).pc]? = some (.j BOOT_CORE_HART0) := by rw [pc]; rfl
  apply goes_of_move hk hinv raised off hi rfl rfl
  · simp [Hart.jump, BOOT_CORE_HART0]
  · simp [pc]
  · exact .clear (by simp [Hart.jump, BOOT_CORE_HART0]) (first ▸ a1)
      ⟨fun _ => woken, fun h => by omega⟩
  · exact .inr (by simp [toGo, Hart.jump, BOOT_CORE_HART0, pc])

/-! ### `boot_core` -/

section Core

variable (other : 1 ≤ k) (a1 : (s.harts k).regs .a1 = msipAddr 0)
include other a1

/-- The word of hart 0 reads 0 only once it has cleared it. -/
theorem goes_poll (pc : (s.harts k).pc = 25) (a0 : (s.harts k).regs .a0 = BitVec.ofNat 64 k) :
    Goes n s k := by
  have hi : text[(s.harts k).pc]? = some (.lw .t0 0 .a1) := by rw [pc]; rfl
  have haddr : (s.harts k).get .a1 + 0 = msipAddr 0 := (BitVec.add_zero _).trans a1
  have hvalue : s.readMsip n 0 = 0 → Cleared (s.harts 0) := by
    intro hzero
    rcases hinv.host raised with h | h
    · rw [State.readMsip, if_pos ⟨by omega, h⟩] at hzero
      cases hzero
    · exact h
  apply goes_of_move hk hinv raised off hi (exec_lw (by omega) haddr) rfl
  · simp [Hart.set, pc]
  · simp [pc]
  · exact .polled (by simp [Hart.set, pc]) other (by simpa [Hart.set] using a1)
      (by simpa [Hart.set] using a0) (by simpa [Hart.set] using hvalue)
  · have hnext : ((s.harts k).set .t0 (s.readMsip n 0)).pc = 26 := by simp [Hart.set, pc]
    by_cases hbusy : s.msip 0 = true
    · left
      refine ⟨.inr (.inr ⟨hbusy, .inl pc⟩), ?_⟩
      rw [toGo_polled n _ hnext, toGo_poll n _ pc, if_pos hbusy]
      split
      · omega
      · omega
    · right
      simp [toGo, Hart.set, State.readMsip, hbusy, pc]

theorem goes_polled (pc : (s.harts k).pc = 26) (a0 : (s.harts k).regs .a0 = BitVec.ofNat 64 k)
    (t0 : (s.harts k).regs .t0 = 0 → Cleared (s.harts 0)) : Goes n s k := by
  have hi : text[(s.harts k).pc]? = some (.bnez .t0 BOOT_CORE) := by rw [pc]; rfl
  by_cases hzero : (s.harts k).regs .t0 = 0#64
  · have hnext : ((s.harts k).jump ((s.harts k).get .t0 != 0) BOOT_CORE).pc = 27 := by
      simp [Hart.jump, Hart.get, hzero, pc]
    apply goes_of_move hk hinv raised off hi rfl rfl
    · omega
    · omega
    · exact .shift hnext other a1 a0 ⟨fun h => by omega, fun _ => t0 hzero⟩
    · right
      rw [toGo_polled n _ pc, if_pos hzero]
      simp only [toGo, hnext]
      omega
  · have hnext : ((s.harts k).jump ((s.harts k).get .t0 != 0) BOOT_CORE).pc = 25 := by
      simp [Hart.jump, Hart.get, hzero, BOOT_CORE]
    apply goes_of_move hk hinv raised off hi rfl rfl
    · omega
    · omega
    · exact .poll hnext other a1 a0
    · by_cases hbusy : s.msip 0 = true
      · left
        refine ⟨.inr (.inr ⟨hbusy, .inr pc⟩), ?_⟩
        rw [toGo_polled n _ pc, if_neg hzero, toGo_poll n _ hnext, if_pos hbusy]
      · right
        rw [toGo_polled n _ pc, if_neg hzero, toGo_poll n _ hnext, if_neg hbusy]
        omega

theorem goes_shift (pc : (s.harts k).pc = 27) (a0 : (s.harts k).regs .a0 = BitVec.ofNat 64 k)
    (permit : Permit n s k) : Goes n s k := by
  have hi : text[(s.harts k).pc]? = some (.slli .a0 .a0 2) := by rw [pc]; rfl
  apply goes_of_move hk hinv raised off hi rfl rfl
  · simp [Hart.set, pc]
  · simp [pc]
  · exact .address (by simp [Hart.set, pc]) other (by simpa [Hart.set] using a1)
      (by simpa [Hart.set, Hart.get, a0] using ofNat_shiftLeft_two k) permit
  · exact .inr (by simp [toGo, Hart.set, pc])

omit other in
theorem goes_address (pc : (s.harts k).pc = 28)
    (a0 : (s.harts k).regs .a0 = BitVec.ofNat 64 (4 * k)) (permit : Permit n s k) :
    Goes n s k := by
  have hi : text[(s.harts k).pc]? = some (.add .a1 .a0 .a1) := by rw [pc]; rfl
  apply goes_of_move hk hinv raised off hi rfl rfl
  · simp [Hart.set, pc]
  · simp [pc]
  · exact .clear (by simp [Hart.set, pc])
      (by simpa [Hart.set, Hart.get, a0, a1] using ofNat_add_msipAddr k) permit
  · exact .inr (by simp [toGo, Hart.set, pc])

end Core

/-! ### `boot_core_hart0` -/

theorem goes_clear (hn : n ≤ 4095) (pc : (s.harts k).pc = 29)
    (a1 : (s.harts k).regs .a1 = msipAddr k) (permit : Permit n s k) : Goes n s k := by
  have hi : text[(s.harts k).pc]? = some (.sw .zero 0 .a1) := by rw [pc]; rfl
  have haddr : (s.harts k).get .a1 + 0 = msipAddr k := (BitVec.add_zero _).trans a1
  exact goes_of_fetch hk hi (exec_sw (by omega) haddr) (taken_clear hinv hk raised off pc permit)

theorem goes_stack (pc : (s.harts k).pc = 30) (permit : Permit n s k) : Goes n s k := by
  have hi : text[(s.harts k).pc]? = some (.li .sp STACK_TOP) := by rw [pc]; rfl
  have hnext : ((s.harts k).set .sp STACK_TOP).pc = 31 := by simp [Hart.set, pc]
  exact goes_of_fetch hk hi rfl (.move hinv ⟨fun _ => .inl pc, fun _ => .inr (.inl hnext)⟩
    (.awake raised off (.call hnext (by simp [Hart.set]) permit))
    (.inr (by simp [toGo, hnext, pc])))

theorem goes_call (pc : (s.harts k).pc = 31) (sp : (s.harts k).regs .sp = STACK_TOP)
    (permit : Permit n s k) : Goes n s k := by
  have hi : text[(s.harts k).pc]? = some (.call BOOTROM_MAIN) := by rw [pc]; rfl
  have hnext : ((s.harts k).jump true BOOTROM_MAIN).pc = 34 := rfl
  exact goes_of_fetch hk hi rfl (.move hinv ⟨fun _ => .inr (.inl pc), fun _ => .inr (.inr rfl)⟩
    (.awake raised off (.main rfl sp permit)) (.inr (by simp [toGo, hnext, pc])))

/-- From `_start` on a hart follows its annotations. -/
theorem exec_awake (hn : n ≤ 4095) (hat : Awake n s k (s.harts k))
    (hout : (s.harts k).pc ≠ BOOTROM_MAIN) : Goes n s k := by
  cases hat with
  | start pc => exact goes_start hk hinv raised off pc
  | hartid pc a1 => exact goes_hartid hk hinv raised off pc a1
  | branch pc a1 a0 => exact goes_branch hk hinv raised off hn pc a1 a0
  | second pc first a1 => exact goes_second hk hinv raised off pc first a1
  | one pc first a1 a2 => exact goes_one hk hinv raised off pc first a1 a2
  | signal pc first a1 j pos le a2 a3 woken =>
      exact goes_signal hk hinv raised off hn first a1 pos le pc a2 a3 woken
  | advance pc first a1 j pos le a2 woken =>
      exact goes_advance hk hinv raised off hn first a1 pos le pc a2 woken
  | readback pc first a1 j pos le a2 woken =>
      exact goes_readback hk hinv raised off hn first a1 pos le pc a2 woken
  | test pc first a1 j pos le a2 a3 woken =>
      exact goes_test hk hinv raised off hn first a1 pos le pc a2 a3 woken
  | leave pc first a1 woken => exact goes_leave hk hinv raised off pc first a1 woken
  | poll pc other a1 a0 => exact goes_poll hk hinv raised off other a1 pc a0
  | polled pc other a1 a0 t0 => exact goes_polled hk hinv raised off other a1 pc a0 t0
  | shift pc other a1 a0 permit => exact goes_shift hk hinv raised off other a1 pc a0 permit
  | address pc other a1 a0 permit => exact goes_address hk hinv raised off a1 pc a0 permit
  | clear pc a1 permit => exact goes_clear hk hinv raised off hn pc a1 permit
  | stack pc permit => exact goes_stack hk hinv raised off pc permit
  | call pc sp permit => exact goes_call hk hinv raised off pc sp permit
  | main pc sp permit => exact absurd pc hout

end Awake

/-! ## Every step -/

theorem Inv.goes {n k : Nat} {s : State} (hn : n ≤ 4095) (hk : k < n) (hinv : Inv n s)
    (hout : (s.harts k).pc ≠ BOOTROM_MAIN) : Goes n s k := by
  cases hinv.outline k hk with
  | sleeping hat => exact exec_sleeping hk hinv hat
  | awake raised off hat => exact exec_awake hk hinv raised off hn hat hout

theorem taken_of_exec {n k : Nat} {s t : State} (hn : n ≤ 4095) (hinv : Inv n s)
    (h : step n s (.exec k) = some t) :
    k < n ∧ (s.harts k).pc ≠ BOOTROM_MAIN ∧ Taken n s k t := by
  have hk : k < n := by
    by_contra hk
    rw [step, if_neg hk] at h
    cases h
  have hout : (s.harts k).pc ≠ BOOTROM_MAIN := by
    intro hmain
    have hnone : text[BOOTROM_MAIN]? = none := rfl
    rw [step, if_pos hk, hmain, hnone] at h
    cases h
  rcases hinv.goes hn hk hout with ⟨t', ht', htaken⟩
  rw [h] at ht'
  cases ht'
  exact ⟨hk, hout, htaken⟩

/-- The interrupt finds a hart in `wfi_loop` and takes it to `_start`. -/
theorem taken_of_interrupt {n k : Nat} {s t : State} (hinv : Inv n s)
    (h : step n s (.interrupt k) = some t) :
    k < n ∧ ((s.harts k).pc = 22 ∨ (s.harts k).pc = 23) ∧ Taken n s k t ∧
      toGo n (s.msip 0) (t.harts k) < toGo n (s.msip 0) (s.harts k) := by
  rw [step] at h
  split at h
  · rename_i hcond
    rcases hcond with ⟨hk, hint⟩
    cases h
    simp only [State.interrupted, Bool.and_eq_true] at hint
    have hoff : (s.harts k).mstatus.getLsbD 3 ≠ false := by
      rw [hint.1.2]
      exact Bool.noConfusion
    cases hinv.outline k hk with
    | awake raised off hat => exact absurd off hoff
    | sleeping hat =>
        cases hat with
        | entry pc off => exact absurd off hoff
        | vector pc off a0 => exact absurd off hoff
        | delegate pc off mtvec => exact absurd off hoff
        | mask pc off mtvec a0 => exact absurd off hoff
        | enable pc mtvec mie off a0 => exact absurd off hoff
        | wait pc mtvec mie on =>
            have hpc : (s.harts k).trap.pc = 0 := by simp [Hart.trap, mtvec]
            have hlower : toGo n (s.msip 0) (s.harts k).trap < toGo n (s.msip 0) (s.harts k) := by
              have hlow : 10 ≤ (s.harts k).pc := by omega
              rw [toGo_hang n _ hlow (by omega)]
              simp only [toGo, hpc]
              omega
            refine ⟨hk, pc, ?_, ?_⟩
            · exact .move hinv ⟨fun h => absurd h (not_cleared hpc (by omega)),
                fun h => absurd h (not_cleared rfl (by omega))⟩
                (.awake (hinv.signal k hint.2) (by simp [Hart.trap]) (.start hpc)) (.inr hlower)
            · rwa [setHart_self]
  · cases h

/-- Before the host's interrupt every hart is in `_hang`. -/
theorem Inv.asleep {n k : Nat} {s : State} (hinv : Inv n s) (hbefore : s.raised = false)
    (hk : k < n) : Sleeping (s.harts k) := by
  cases hinv.outline k hk with
  | sleeping hat => exact hat
  | awake raised off hat =>
      rw [hbefore] at raised
      cases raised

theorem Sleeping.pc {h : Hart} (hat : Sleeping h) : 10 ≤ h.pc ∧ h.pc ≤ 23 := by
  cases hat <;> omega

theorem Inv.host_step {n : Nat} {s t : State} (hpos : 1 ≤ n) (hinv : Inv n s)
    (h : step n s .host = some t) :
    s.raised = false ∧ t = { s.writeMsip n 0 1 with raised := true } ∧ Inv n t := by
  rw [step] at h
  split at h
  · cases h
  · rename_i hraised
    rw [Bool.not_eq_true] at hraised
    cases h
    have hpc : ∀ i < n, (s.harts i).pc < 30 := by
      intro i hi
      have hat := (hinv.asleep hraised hi).pc
      omega
    refine ⟨hraised, rfl, ?_, fun _ _ => rfl, fun _ => .inl ?_, ?_⟩
    · intro k hk
      rw [writeMsip_harts]
      exact .sleeping (hinv.asleep hraised hk)
    · show (s.writeMsip n 0 1).msip 0 = true
      rw [writeMsip_msip, if_pos ⟨hpos, rfl⟩]
      rfl
    · intro i hi hc
      rw [writeMsip_harts] at hc
      exact absurd hc (not_cleared rfl (hpc i hi))

theorem inv_step {n : Nat} {s t : State} {e : Event} (hpos : 1 ≤ n) (hn : n ≤ 4095)
    (hinv : Inv n s) (h : step n s e = some t) : Inv n t := by
  cases e with
  | host => exact (hinv.host_step hpos h).2.2
  | exec k => exact (taken_of_exec hn hinv h).2.2.inv hinv
  | interrupt k => exact (taken_of_interrupt hinv h).2.2.1.inv hinv

theorem inv_powerOn {n : Nat} {s : State} (hs : PowerOn s) : Inv n s where
  outline k _ := .sleeping (.entry (hs.vector k) (hs.disabled k))
  signal i hi := by
    rw [hs.quiet i] at hi
    cases hi
  host hr := by
    rw [hs.before] at hr
    cases hr
  quiet i _ _ := hs.quiet i

theorem inv_runs {n : Nat} {s t : State} {events : List Event} (hpos : 1 ≤ n) (hn : n ≤ 4095)
    (hrun : Runs n s events t) (hs : Inv n s) : Inv n t :=
  hrun.invariant (fun _ _ _ hinv h => inv_step hpos hn hinv h) hs

end SecureBoot.Startup
