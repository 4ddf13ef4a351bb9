import SecureBoot.Startup.Text

/-!
# The annotated program

What holds of a hart at each instruction whatever the others do, the invariant of all harts, how far
a hart is from `bootrom_main`, and what a step of a hart has to keep.
-/

namespace SecureBoot.Startup

/-! ## What the harts rely on -/

/-- Behind the store of `boot_core_hart0`. -/
def Cleared (h : Hart) : Prop := h.pc = 30 ∨ h.pc = 31 ∨ h.pc = BOOTROM_MAIN

/-- The hart has its interrupt, or has taken and cleared it. -/
def Woken (s : State) (i : Nat) : Prop := s.msip i = true ∨ Cleared (s.harts i)

/-- The harts that hart 0 has woken when it comes to hart `j`. -/
def WokenBelow (n : Nat) (s : State) (j : Nat) : Prop := ∀ i, 1 ≤ i → i < j → i < n → Woken s i

def AllWoken (n : Nat) (s : State) : Prop := WokenBelow n s n

/-- What no step takes back. -/
structure Ahead (s t : State) : Prop where
  raised : s.raised = true → t.raised = true
  cleared : ∀ i, Cleared (s.harts i) → Cleared (t.harts i)
  woken : ∀ i, Woken s i → Woken t i

theorem Ahead.setHart {s : State} {k : Nat} {h : Hart}
    (hkeep : Cleared (s.harts k) → Cleared h) : Ahead s (s.setHart k h) := by
  have hcleared : ∀ i, Cleared (s.harts i) → Cleared ((s.setHart k h).harts i) := by
    intro i hi
    by_cases hik : i = k
    · rw [hik] at hi ⊢
      rw [setHart_self]
      exact hkeep hi
    · rwa [setHart_other s h hik]
  exact ⟨id, hcleared, fun i hi => hi.imp id (hcleared i)⟩

/-! ## The annotated program -/

/-- A hart in `_hang`, up to the interrupt. -/
inductive Sleeping (h : Hart) : Prop
  | entry (pc : h.pc = 10) (off : h.mstatus.getLsbD 3 = false)
  | vector (pc : h.pc = 11) (off : h.mstatus.getLsbD 3 = false) (a0 : h.regs .a0 = 0)
  | delegate (pc : 12 ≤ h.pc ∧ h.pc ≤ 19) (off : h.mstatus.getLsbD 3 = false) (mtvec : h.mtvec = 0)
  | mask (pc : h.pc = 20) (off : h.mstatus.getLsbD 3 = false) (mtvec : h.mtvec = 0)
      (a0 : h.regs .a0 = 8)
  | enable (pc : h.pc = 21) (mtvec : h.mtvec = 0) (mie : h.mie.getLsbD 3 = true)
      (off : h.mstatus.getLsbD 3 = false) (a0 : h.regs .a0 = 8)
  | wait (pc : h.pc = 22 ∨ h.pc = 23) (mtvec : h.mtvec = 0) (mie : h.mie.getLsbD 3 = true)
      (on : h.mstatus.getLsbD 3 = true)

/-- Who may clear its interrupt and go on: hart 0 once it has woken the others, the others once
hart 0 has. -/
def Permit (n : Nat) (s : State) (k : Nat) : Prop :=
  (k = 0 → AllWoken n s) ∧ (1 ≤ k → Cleared (s.harts 0))

/-- A hart on its way from `_start`. -/
inductive Awake (n : Nat) (s : State) (k : Nat) (h : Hart) : Prop
  | start (pc : h.pc = 0)
  | hartid (pc : h.pc = 1) (a1 : h.regs .a1 = msipAddr 0)
  | branch (pc : h.pc = 2) (a1 : h.regs .a1 = msipAddr 0) (a0 : h.regs .a0 = BitVec.ofNat 64 k)
  | second (pc : h.pc = 3) (first : k = 0) (a1 : h.regs .a1 = msipAddr 0)
  | one (pc : h.pc = 4) (first : k = 0) (a1 : h.regs .a1 = msipAddr 0)
      (a2 : h.regs .a2 = msipAddr 1)
  | signal (pc : h.pc = 5) (first : k = 0) (a1 : h.regs .a1 = msipAddr 0) (j : Nat) (pos : 1 ≤ j)
      (le : j ≤ n) (a2 : h.regs .a2 = msipAddr j) (a3 : h.regs .a3 = 1)
      (woken : WokenBelow n s j)
  | advance (pc : h.pc = 6) (first : k = 0) (a1 : h.regs .a1 = msipAddr 0) (j : Nat) (pos : 1 ≤ j)
      (le : j ≤ n) (a2 : h.regs .a2 = msipAddr j)
      (woken : WokenBelow n s (j + 1))
  | readback (pc : h.pc = 7) (first : k = 0) (a1 : h.regs .a1 = msipAddr 0) (j : Nat) (pos : 1 ≤ j)
      (le : j ≤ n) (a2 : h.regs .a2 = msipAddr (j + 1))
      (woken : WokenBelow n s (j + 1))
  | test (pc : h.pc = 8) (first : k = 0) (a1 : h.regs .a1 = msipAddr 0) (j : Nat) (pos : 1 ≤ j)
      (le : j ≤ n) (a2 : h.regs .a2 = msipAddr (j + 1)) (a3 : h.regs .a3 = if j < n then 1 else 0)
      (woken : WokenBelow n s (j + 1))
  | leave (pc : h.pc = 9) (first : k = 0) (a1 : h.regs .a1 = msipAddr 0) (woken : AllWoken n s)
  | poll (pc : h.pc = 25) (other : 1 ≤ k) (a1 : h.regs .a1 = msipAddr 0)
      (a0 : h.regs .a0 = BitVec.ofNat 64 k)
  | polled (pc : h.pc = 26) (other : 1 ≤ k) (a1 : h.regs .a1 = msipAddr 0)
      (a0 : h.regs .a0 = BitVec.ofNat 64 k) (t0 : h.regs .t0 = 0 → Cleared (s.harts 0))
  | shift (pc : h.pc = 27) (other : 1 ≤ k) (a1 : h.regs .a1 = msipAddr 0)
      (a0 : h.regs .a0 = BitVec.ofNat 64 k) (permit : Permit n s k)
  | address (pc : h.pc = 28) (other : 1 ≤ k) (a1 : h.regs .a1 = msipAddr 0)
      (a0 : h.regs .a0 = BitVec.ofNat 64 (4 * k)) (permit : Permit n s k)
  | clear (pc : h.pc = 29) (a1 : h.regs .a1 = msipAddr k) (permit : Permit n s k)
  | stack (pc : h.pc = 30) (permit : Permit n s k)
  | call (pc : h.pc = 31) (sp : h.regs .sp = STACK_TOP) (permit : Permit n s k)
  | main (pc : h.pc = BOOTROM_MAIN) (sp : h.regs .sp = STACK_TOP) (permit : Permit n s k)

/-- What holds of hart `k` at its instruction. Interrupts stay off once it has been woken. -/
inductive Outline (n : Nat) (s : State) (k : Nat) (h : Hart) : Prop
  | sleeping (at_ : Sleeping h)
  | awake (raised : s.raised = true) (off : h.mstatus.getLsbD 3 = false) (at_ : Awake n s k h)

theorem WokenBelow.mono {n : Nat} {s t : State} {j : Nat} (h : WokenBelow n s j)
    (hst : Ahead s t) : WokenBelow n t j := fun i h₁ h₂ h₃ => hst.woken i (h i h₁ h₂ h₃)

theorem Permit.mono {n : Nat} {s t : State} {k : Nat} (h : Permit n s k) (hst : Ahead s t) :
    Permit n t k :=
  ⟨fun hk => WokenBelow.mono (h.1 hk) hst, fun hk => hst.cleared 0 (h.2 hk)⟩

/-- The other harts do not interfere. -/
theorem Awake.mono {n : Nat} {s t : State} {k : Nat} {h : Hart} (hat : Awake n s k h)
    (hst : Ahead s t) : Awake n t k h := by
  cases hat with
  | start pc => exact .start pc
  | hartid pc a1 => exact .hartid pc a1
  | branch pc a1 a0 => exact .branch pc a1 a0
  | second pc first a1 => exact .second pc first a1
  | one pc first a1 a2 => exact .one pc first a1 a2
  | signal pc first a1 j pos le a2 a3 woken =>
      exact .signal pc first a1 j pos le a2 a3 (woken.mono hst)
  | advance pc first a1 j pos le a2 woken =>
      exact .advance pc first a1 j pos le a2 (woken.mono hst)
  | readback pc first a1 j pos le a2 woken =>
      exact .readback pc first a1 j pos le a2 (woken.mono hst)
  | test pc first a1 j pos le a2 a3 woken =>
      exact .test pc first a1 j pos le a2 a3 (woken.mono hst)
  | leave pc first a1 woken =>
      exact .leave pc first a1 (WokenBelow.mono woken hst)
  | poll pc other a1 a0 => exact .poll pc other a1 a0
  | polled pc other a1 a0 t0 => exact .polled pc other a1 a0 fun h => hst.cleared 0 (t0 h)
  | shift pc other a1 a0 permit => exact .shift pc other a1 a0 (permit.mono hst)
  | address pc other a1 a0 permit => exact .address pc other a1 a0 (permit.mono hst)
  | clear pc a1 permit => exact .clear pc a1 (permit.mono hst)
  | stack pc permit => exact .stack pc (permit.mono hst)
  | call pc sp permit => exact .call pc sp (permit.mono hst)
  | main pc sp permit => exact .main pc sp (permit.mono hst)

theorem Outline.mono {n : Nat} {s t : State} {k : Nat} {h : Hart} (hat : Outline n s k h)
    (hst : Ahead s t) : Outline n t k h := by
  cases hat with
  | sleeping hat => exact .sleeping hat
  | awake raised off hat => exact .awake (hst.raised raised) off (hat.mono hst)

/-- What holds between any two steps of `n` harts. -/
structure Inv (n : Nat) (s : State) : Prop where
  outline : ∀ k < n, Outline n s k (s.harts k)
  signal : ∀ i, s.msip i = true → s.raised = true
  host : s.raised = true → Woken s 0
  quiet : ∀ i < n, Cleared (s.harts i) → s.msip i = false

/-! ## How far a hart is from `bootrom_main` -/

/-- The hart whose word `a2` points to. -/
def Hart.target (h : Hart) : Nat := ((h.regs .a2).toNat - CLINT) / 4

theorem target_of_a2 {h : Hart} {j : Nat} (hj : j ≤ 4096) (a2 : h.regs .a2 = msipAddr j) :
    h.target = j := by
  have hclint : CLINT = 0x2000000 := rfl
  rw [Hart.target, a2, msipAddr, BitVec.toNat_ofNat, Nat.mod_eq_of_lt (by omega)]
  omega

/-- Instructions to go on a machine of `n` harts. `busy` is the interrupt bit of hart 0, which
the others wait for. -/
def toGo (n : Nat) (busy : Bool) (h : Hart) : Nat :=
  match h.pc with
  | 0 => 4 * n + 9
  | 1 => 4 * n + 8
  | 2 => 4 * n + 7
  | 3 => 4 * n + 6
  | 4 => 4 * n + 5
  | 5 => 4 * (n - h.target) + 8
  | 6 => 4 * (n - h.target) + 7
  | 7 => 4 * (n + 1 - h.target) + 6
  | 8 => 4 * (n + 1 - h.target) + 5
  | 9 => 4
  | 25 => if busy then 8 else 7
  | 26 => if h.regs .t0 = 0 then 6 else 8
  | 27 => 5
  | 28 => 4
  | 29 => 3
  | 30 => 2
  | 31 => 1
  | 34 => 0
  | pc => 4 * n + 10 + (22 - pc)

theorem toGo_poll (n : Nat) (busy : Bool) {h : Hart} (pc : h.pc = 25) :
    toGo n busy h = if busy then 8 else 7 := by
  simp only [toGo, pc]

theorem toGo_polled (n : Nat) (busy : Bool) {h : Hart} (pc : h.pc = 26) :
    toGo n busy h = if h.regs .t0 = 0#64 then 6 else 8 := by
  simp only [toGo, pc]
  rfl

/-- Waiting: for the interrupt, or for hart 0. -/
def Waits (s : State) (k : Nat) : Prop :=
  (s.harts k).pc = 22 ∨ (s.harts k).pc = 23 ∨
    s.msip 0 = true ∧ ((s.harts k).pc = 25 ∨ (s.harts k).pc = 26)

/-- From a state of the hart to the next it does not go back, and goes on unless it waits. -/
def Lowers (n : Nat) (s : State) (k : Nat) (busy : Bool) (h : Hart) : Prop :=
  Waits s k ∧ toGo n busy h ≤ toGo n (s.msip 0) (s.harts k) ∨
    toGo n busy h < toGo n (s.msip 0) (s.harts k)

/-! ## One step of one hart -/

/-- Hart `k` went from `s` to `t`. -/
structure Taken (n : Nat) (s : State) (k : Nat) (t : State) : Prop where
  ahead : Ahead s t
  outline : Outline n t k (t.harts k)
  others : ∀ i, i ≠ k → t.harts i = s.harts i
  raised : t.raised = s.raised
  signal : ∀ i, t.msip i = true → s.raised = true
  quiet : ∀ i < n, Cleared (t.harts i) → t.msip i = false
  busy : t.msip 0 = true → s.msip 0 = true
  lower : Lowers n s k (t.msip 0) (t.harts k)

theorem Taken.inv {n : Nat} {s t : State} {k : Nat} (hinv : Inv n s) (h : Taken n s k t) :
    Inv n t where
  outline i hi := by
    by_cases hik : i = k
    · rw [hik]
      exact h.outline
    · rw [h.others i hik]
      exact (hinv.outline i hi).mono h.ahead
  signal i hi := h.raised.trans (h.signal i hi)
  host hr := h.ahead.woken 0 (hinv.host (h.raised ▸ hr))
  quiet := h.quiet

/-- An instruction that only moves the hart. -/
theorem Taken.move {n : Nat} {s : State} {k : Nat} (hinv : Inv n s) {h : Hart}
    (hcleared : Cleared h ↔ Cleared (s.harts k)) (hout : Outline n s k h)
    (hlower : Lowers n s k (s.msip 0) h) : Taken n s k (s.setHart k h) := by
  have hahead : Ahead s (s.setHart k h) := .setHart hcleared.mpr
  refine ⟨hahead, ?_, fun i hi => setHart_other s h hi, rfl, hinv.signal, ?_, id, ?_⟩
  · rw [setHart_self]
    exact hout.mono hahead
  · intro i hi hc
    apply hinv.quiet i hi
    by_cases hik : i = k
    · rw [hik, setHart_self] at hc
      exact hik ▸ hcleared.mp hc
    · rwa [setHart_other s h hik] at hc
  · rwa [setHart_self]

/-- Hart `k` can go on, to a state that fits the annotations. -/
def Goes (n : Nat) (s : State) (k : Nat) : Prop :=
  ∃ t, step n s (.exec k) = some t ∧ Taken n s k t

theorem goes_of_fetch {n k : Nat} {s t : State} {i : Instr} (hk : k < n)
    (hi : text[(s.harts k).pc]? = some i) (hexec : exec n k s i = some t) (h : Taken n s k t) :
    Goes n s k := by
  refine ⟨t, ?_, h⟩
  rw [step, if_pos hk, hi]
  exact hexec

theorem exec_lw {n k : Nat} {s : State} {rd base : Reg} {imm : DWord} {i : Nat} (hi : i < 4096)
    (haddr : (s.harts k).get base + imm = msipAddr i) :
    exec n k s (.lw rd imm base) = some (s.setHart k ((s.harts k).set rd (s.readMsip n i))) := by
  rw [exec, haddr, msipIndex_msipAddr hi]
  rfl

theorem exec_sw {n k : Nat} {s : State} {rs base : Reg} {imm : DWord} {i : Nat} (hi : i < 4096)
    (haddr : (s.harts k).get base + imm = msipAddr i) :
    exec n k s (.sw rs imm base) =
      some ((s.writeMsip n i ((s.harts k).get rs)).setHart k (s.harts k).next) := by
  rw [exec, haddr, msipIndex_msipAddr hi]
  rfl

theorem not_cleared {h : Hart} {pc : Nat} (hpc : h.pc = pc) (hlow : pc < 30) : ¬ Cleared h := by
  have hmain : BOOTROM_MAIN = 34 := rfl
  unfold Cleared
  omega

end SecureBoot.Startup
