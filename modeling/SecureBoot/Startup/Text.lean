import SecureBoot.Base.Transition
import SecureBoot.Base.Words

/-!
# `bootrom.S`

From power-on to the call of `bootrom_main`, on any number of harts that take their
instructions and interrupts in any order. Hart 0 is woken by the host, once the program is in
memory, and wakes the others; these wait until it has cleared its own interrupt.
-/

namespace SecureBoot.Startup

/-! ## Instructions -/

inductive Reg where
  | zero
  | sp
  | t0
  | a0
  | a1
  | a2
  | a3
deriving DecidableEq, Repr

inductive Csr where
  | mhartid
  | misa
  | mtvec
  | mideleg
  | mip
  | mie
  | mstatus
deriving DecidableEq, Repr

/-- A target is the index of an instruction. -/
inductive Instr where
  | li (rd : Reg) (value : DWord)
  | la (rd : Reg) (target : Nat)
  | csrr (rd : Reg) (csr : Csr)
  | csrw (csr : Csr) (rs : Reg)
  | csrs (csr : Csr) (rs : Reg)
  | csrc (csr : Csr) (rs : Reg)
  | addi (rd rs : Reg) (imm : DWord)
  | andi (rd rs : Reg) (imm : DWord)
  | srai (rd rs : Reg) (amount : Nat)
  | slli (rd rs : Reg) (amount : Nat)
  | add (rd rs rs' : Reg)
  | lw (rd : Reg) (imm : DWord) (base : Reg)
  | sw (rs : Reg) (imm : DWord) (base : Reg)
  | beqz (rs : Reg) (target : Nat)
  | bnez (rs : Reg) (target : Nat)
  | j (target : Nat)
  | wfi
  | call (target : Nat)
deriving DecidableEq, Repr

/-! ## The program -/

def STACK_TOP : DWord := 0x88010000

/-- Machine-software-interrupt bits of the harts, one word each. -/
def CLINT : Nat := 0x2000000

def START : Nat := 0
def INTERRUPT_LOOP : Nat := 5
def HANG : Nat := 10
def WFI_LOOP : Nat := 22
def BOOT_CORE : Nat := 25
def BOOT_CORE_HART0 : Nat := 29
def BOOTROM_RETURNED : Nat := 32
/-- In `bootrom_main`, which is not part of this text. -/
def BOOTROM_MAIN : Nat := 34

/-- `old_chipyard_handoff` is behind the last jump and has no label that is used. -/
def text : List Instr :=
  [ -- _start
    .li .a1 0x2000000,
    .csrr .a0 .mhartid,
    .bnez .a0 BOOT_CORE,
    .addi .a2 .a1 4,
    .li .a3 1,
    -- interrupt_loop
    .sw .a3 0 .a2,
    .addi .a2 .a2 4,
    .lw .a3 (-4) .a2,
    .bnez .a3 INTERRUPT_LOOP,
    .j BOOT_CORE_HART0,
    -- _hang
    .la .a0 START,
    .csrw .mtvec .a0,
    .csrr .t0 .misa,
    .srai .t0 .t0 18,
    .andi .t0 .t0 1,
    .beqz .t0 19,
    .csrw .mideleg .zero,
    .li .a0 0x222,
    .csrc .mip .a0,
    .li .a0 8,
    .csrw .mie .a0,
    .csrs .mstatus .a0,
    -- wfi_loop
    .wfi,
    .j WFI_LOOP,
    -- _hang80
    .j HANG,
    -- boot_core
    .lw .t0 0 .a1,
    .bnez .t0 BOOT_CORE,
    .slli .a0 .a0 2,
    .add .a1 .a0 .a1,
    -- boot_core_hart0
    .sw .zero 0 .a1,
    .li .sp STACK_TOP,
    .call BOOTROM_MAIN,
    -- bootrom_returned
    .wfi,
    .j BOOTROM_RETURNED]

/-! ## One hart -/

/-- `mtvec` holds the index of an instruction. -/
structure Hart where
  pc : Nat
  regs : Reg → DWord
  misa : DWord
  mtvec : DWord
  mideleg : DWord
  mip : DWord
  mie : DWord
  mstatus : DWord

namespace Hart

def get (h : Hart) (r : Reg) : DWord := if r = .zero then 0 else h.regs r

def next (h : Hart) : Hart := { h with pc := h.pc + 1 }

def set (h : Hart) (r : Reg) (value : DWord) : Hart :=
  { h with pc := h.pc + 1, regs := fun q => if q = r then value else h.regs q }

def jump (h : Hart) (taken : Bool) (target : Nat) : Hart :=
  { h with pc := if taken then target else h.pc + 1 }

def readCsr (h : Hart) (id : Nat) : Csr → DWord
  | .mhartid => BitVec.ofNat 64 id
  | .misa => h.misa
  | .mtvec => h.mtvec
  | .mideleg => h.mideleg
  | .mip => h.mip
  | .mie => h.mie
  | .mstatus => h.mstatus

/-- `mhartid` and `misa` keep their value. -/
def writeCsr (h : Hart) (value : DWord) : Csr → Hart
  | .mhartid => h.next
  | .misa => h.next
  | .mtvec => { h.next with mtvec := value }
  | .mideleg => { h.next with mideleg := value }
  | .mip => { h.next with mip := value }
  | .mie => { h.next with mie := value }
  | .mstatus => { h.next with mstatus := value }

end Hart

/-! ## All harts -/

structure State where
  harts : Nat → Hart
  msip : Nat → Bool
  /-- the host has loaded the program and interrupted hart 0 -/
  raised : Bool

/-- The word of a hart; other addresses do not belong to the bank of 4096 words. -/
def msipIndex (a : DWord) : Option Nat :=
  if CLINT ≤ a.toNat ∧ a.toNat < CLINT + 0x4000 ∧ a.toNat % 4 = 0 then
    some ((a.toNat - CLINT) / 4)
  else none

namespace State

/-- A word without a hart reads zero. -/
def readMsip (n : Nat) (s : State) (i : Nat) : DWord := if i < n ∧ s.msip i = true then 1 else 0

/-- Bit 0 is implemented. -/
def writeMsip (n : Nat) (s : State) (i : Nat) (value : DWord) : State :=
  if i < n then { s with msip := fun k => if k = i then value.getLsbD 0 else s.msip k } else s

def setHart (s : State) (k : Nat) (h : Hart) : State :=
  { s with harts := fun i => if i = k then h else s.harts i }

end State

/-- Hart `k` takes an instruction. There is no step for an access outside the interrupt bits. -/
def exec (n k : Nat) (s : State) : Instr → Option State
  | .li rd value => some (s.setHart k ((s.harts k).set rd value))
  | .la rd target => some (s.setHart k ((s.harts k).set rd (BitVec.ofNat 64 target)))
  | .csrr rd csr => some (s.setHart k ((s.harts k).set rd ((s.harts k).readCsr k csr)))
  | .csrw csr rs => some (s.setHart k ((s.harts k).writeCsr ((s.harts k).get rs) csr))
  | .csrs csr rs => some (s.setHart k
      ((s.harts k).writeCsr ((s.harts k).readCsr k csr ||| (s.harts k).get rs) csr))
  | .csrc csr rs => some (s.setHart k
      ((s.harts k).writeCsr ((s.harts k).readCsr k csr &&& ~~~(s.harts k).get rs) csr))
  | .addi rd rs imm => some (s.setHart k ((s.harts k).set rd ((s.harts k).get rs + imm)))
  | .andi rd rs imm => some (s.setHart k ((s.harts k).set rd ((s.harts k).get rs &&& imm)))
  | .srai rd rs amount =>
      some (s.setHart k ((s.harts k).set rd (((s.harts k).get rs).sshiftRight amount)))
  | .slli rd rs amount => some (s.setHart k ((s.harts k).set rd ((s.harts k).get rs <<< amount)))
  | .add rd rs rs' =>
      some (s.setHart k ((s.harts k).set rd ((s.harts k).get rs + (s.harts k).get rs')))
  | .lw rd imm base => do
      let i ← msipIndex ((s.harts k).get base + imm)
      pure (s.setHart k ((s.harts k).set rd (s.readMsip n i)))
  | .sw rs imm base => do
      let i ← msipIndex ((s.harts k).get base + imm)
      pure ((s.writeMsip n i ((s.harts k).get rs)).setHart k (s.harts k).next)
  | .beqz rs target => some (s.setHart k ((s.harts k).jump ((s.harts k).get rs == 0) target))
  | .bnez rs target => some (s.setHart k ((s.harts k).jump ((s.harts k).get rs != 0) target))
  | .j target => some (s.setHart k ((s.harts k).jump true target))
  | .wfi => some (s.setHart k (s.harts k).next)
  | .call target => some (s.setHart k ((s.harts k).jump true target))

/-- `mie.MSIE`, `mstatus.MIE` and the hart's interrupt bit. -/
def State.interrupted (s : State) (k : Nat) : Bool :=
  (s.harts k).mie.getLsbD 3 && (s.harts k).mstatus.getLsbD 3 && s.msip k

/-- A trap continues at `mtvec` with interrupts disabled. -/
def Hart.trap (h : Hart) : Hart :=
  { h with pc := h.mtvec.toNat, mstatus := h.mstatus &&& ~~~8 }

inductive Event where
  /-- FESVR sets the bit of hart 0, once -/
  | host
  | exec (k : Nat)
  | interrupt (k : Nat)
deriving DecidableEq, Repr

/-- One step of a machine with `n` harts. -/
def step (n : Nat) (s : State) : Event → Option State
  | .host => if s.raised then none else some { s.writeMsip n 0 1 with raised := true }
  | .exec k => if k < n then text[(s.harts k).pc]? >>= exec n k s else none
  | .interrupt k =>
      if k < n ∧ s.interrupted k = true then some (s.setHart k (s.harts k).trap) else none

/-- At power-on every hart is at the reset vector `_hang`, with interrupts disabled. -/
structure PowerOn (s : State) : Prop where
  vector : ∀ k, (s.harts k).pc = HANG
  disabled : ∀ k, (s.harts k).mstatus.getLsbD 3 = false
  quiet : ∀ k, s.msip k = false
  before : s.raised = false

/-- The runs of `n` harts. -/
abbrev Runs (n : Nat) := Transition.Run fun s e t => step n s e = some t

/-! ## What a step changes -/

@[simp] theorem setHart_self (s : State) (k : Nat) (h : Hart) : (s.setHart k h).harts k = h :=
  if_pos rfl

theorem setHart_other (s : State) (h : Hart) {i k : Nat} (hne : i ≠ k) :
    (s.setHart k h).harts i = s.harts i := if_neg hne

@[simp] theorem setHart_msip (s : State) (k : Nat) (h : Hart) : (s.setHart k h).msip = s.msip := rfl

@[simp] theorem setHart_raised (s : State) (k : Nat) (h : Hart) :
    (s.setHart k h).raised = s.raised := rfl

@[simp] theorem writeMsip_harts (n : Nat) (s : State) (i : Nat) (value : DWord) :
    (s.writeMsip n i value).harts = s.harts := by
  unfold State.writeMsip
  split
  · rfl
  · rfl

@[simp] theorem writeMsip_raised (n : Nat) (s : State) (i : Nat) (value : DWord) :
    (s.writeMsip n i value).raised = s.raised := by
  unfold State.writeMsip
  split
  · rfl
  · rfl

theorem writeMsip_msip (n : Nat) (s : State) (i k : Nat) (value : DWord) :
    (s.writeMsip n i value).msip k =
      if i < n ∧ k = i then value.getLsbD 0 else s.msip k := by
  unfold State.writeMsip
  by_cases hi : i < n
  · by_cases hk : k = i
    · simp [hi, hk]
    · simp [hi, hk]
  · simp [hi]

/-- The address of the word of hart `i`. -/
def msipAddr (i : Nat) : DWord := BitVec.ofNat 64 (CLINT + 4 * i)

theorem msipIndex_msipAddr {i : Nat} (hi : i < 4096) : msipIndex (msipAddr i) = some i := by
  have hclint : CLINT = 0x2000000 := rfl
  have haddr : (msipAddr i).toNat = CLINT + 4 * i := by
    rw [msipAddr, BitVec.toNat_ofNat, Nat.mod_eq_of_lt (by omega)]
  rw [msipIndex, haddr, if_pos (by omega), show (CLINT + 4 * i - CLINT) / 4 = i by omega]

theorem msipAddr_succ (i : Nat) : msipAddr i + 4 = msipAddr (i + 1) := by
  rw [msipAddr, msipAddr, Nat.mul_succ, ← Nat.add_assoc, BitVec.ofNat_add _ 4]
  rfl

theorem msipAddr_pred (i : Nat) : msipAddr (i + 1) + -4 = msipAddr i := by
  rw [← msipAddr_succ, BitVec.add_assoc]
  exact BitVec.add_zero _

theorem ofNat_shiftLeft_two (k : Nat) : BitVec.ofNat 64 k <<< 2 = BitVec.ofNat 64 (4 * k) := by
  apply BitVec.eq_of_toNat_eq
  rw [BitVec.toNat_shiftLeft, BitVec.toNat_ofNat, BitVec.toNat_ofNat, Nat.shiftLeft_eq]
  omega

theorem ofNat_add_msipAddr (k : Nat) : BitVec.ofNat 64 (4 * k) + msipAddr 0 = msipAddr k := by
  rw [msipAddr, msipAddr, ← BitVec.ofNat_add, Nat.mul_zero, Nat.add_zero, Nat.add_comm]

end SecureBoot.Startup
