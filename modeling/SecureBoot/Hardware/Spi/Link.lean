import SecureBoot.Hardware.Spi.Master
import SecureBoot.Hardware.Spi.Slave

/-!
# Master and flash on one wire

A transaction as a walk through numbered phases. In each phase all registers
of both circuits are known, so the bit-serial pair refines a machine with two
counters.
-/

namespace SecureBoot.Spi

open Words

variable (f : Storage)

/-! ## Words -/

/-- The word register after `count` bytes from `base` on, least significant byte first. -/
def partialWord (address : BitVec 24) (base : Nat) : Nat → Word
  | 0 => 0
  | count + 1 =>
      partialWord address base count |||
        ((f.byte address (base + count)).setWidth 32 <<< (8 * count))

/-- Word `i` of a transaction of `n` bytes; the last one is padded with zeros. -/
def packedWord (address : BitVec 24) (n i : Nat) : Word :=
  partialWord f address (4 * i) (min 4 (n - 4 * i))

/-! ## Phases -/

/-- The clock line now and one cycle ago: `high` is just risen, `falling` just fallen. -/
inductive Edge where
  | high
  | falling
  | low
deriving DecidableEq, Repr

namespace Edge

def sclk : Edge → Bool
  | high => true
  | _ => false

def sclkPrev : Edge → Bool
  | falling => true
  | _ => false

/-- One cycle later, with the clock driven low. -/
def lower : Edge → Edge
  | high => falling
  | _ => low

/-- How many bits the flash has put out when the master is about to sample bit `m`. -/
def falls (m : Nat) : Edge → Nat
  | low => m + 1
  | _ => m

end Edge

/-- Bits are numbered from 0 in the command and again in the data. -/
inductive Phase where
  | sendSetup (k : Nat)
  | sendRise (k : Nat)
  | firstRead
  | readSetup (m : Nat) (e : Edge)
  | readWait (m : Nat) (e : Edge)
  | readRise (m : Nat)
  | emit (m : Nat) (e : Edge)
deriving DecidableEq, Repr

namespace Phase

/-- The word is complete after `m` bits: four bytes, or the last ones. -/
def WordEnd (n m : Nat) : Prop := m % 8 = 0 ∧ (m / 8 % 4 = 0 ∨ m / 8 = n)

instance (n m : Nat) : Decidable (WordEnd n m) := inferInstanceAs (Decidable (_ ∧ _))

def Valid (n : Nat) : Phase → Prop
  | sendSetup k => k < 32
  | sendRise k => k < 32
  | firstRead => True
  | readSetup m _ => m < 8 * n
  | readWait m e => m < 8 * n ∧ e ≠ .high
  | readRise m => m < 8 * n
  | emit m _ => 0 < m ∧ m ≤ 8 * n ∧ WordEnd n m

/-- The last word is on offer. -/
def Last (n : Nat) : Phase → Prop
  | emit m _ => m = 8 * n
  | _ => False

def next (n : Nat) (dataReady : Bool) : Phase → Phase
  | sendSetup k => sendRise k
  | sendRise k => if k = 31 then firstRead else sendSetup (k + 1)
  | firstRead => readWait 0 .falling
  | readSetup m e => readWait m e.lower
  | readWait m _ => readRise m
  | readRise m => if WordEnd n (m + 1) then emit (m + 1) .high else readSetup (m + 1) .high
  | emit m e => if dataReady then readSetup m e.lower else emit m e.lower

/-- The registers of the master while it sends. -/
def sending (address : BitVec 24) (n k : Nat) (emitWord : Word) : Master where
  state := .sSendSetup
  txShift := (0x03#8 ++ address) <<< k
  txBitsLeft := 32 - k
  rxByte := 0
  rxBitCount := 0
  bytesRemaining := n
  wordReg := 0
  wordByteCount := 0
  emitWord := emitWord
  sclkReg := decide (0 < k)
  mosiReg := decide (0 < k) && Slave.txBit address (k - 1)
  csReg := false
  doneReg := false
  errorReg := false

/-- The registers of the master with `m` bits read. -/
def reading (address : BitVec 24) (n m : Nat) (state : MasterState) (sclk : Bool)
    (emitWord : Word) : Master where
  state := state
  txShift := 0
  txBitsLeft := 0
  rxByte := f.byte address (m / 8) >>> (8 - m % 8)
  rxBitCount := m % 8
  bytesRemaining := n - m / 8
  wordReg := partialWord f address (4 * (m / 8 / 4)) (m / 8 % 4)
  wordByteCount := m / 8 % 4
  emitWord := emitWord
  sclkReg := sclk
  mosiReg := false
  csReg := false
  doneReg := false
  errorReg := false

def master (address : BitVec 24) (n : Nat) (emitWord : Word) : Phase → Master
  | sendSetup k => sending address n k emitWord
  | sendRise k =>
      { sending address n k emitWord with
        state := .sSendRise, sclkReg := false, mosiReg := Slave.txBit address k }
  | firstRead => { sending address n 32 emitWord with state := .sReadSetup }
  | readSetup m e => reading f address n m .sReadSetup e.sclk emitWord
  | readWait m _ => reading f address n m .sReadWait false emitWord
  | readRise m => reading f address n m .sReadRise false emitWord
  | emit m e =>
      { reading f address n m .sEmit e.sclk (packedWord f address n ((m / 8 - 1) / 4)) with
        wordReg := 0, wordByteCount := 0 }

def slave (address : BitVec 24) : Phase → Slave
  | sendSetup 0 => Slave.deselected false
  | sendSetup (k + 1) => Slave.received address k false
  | sendRise k => Slave.received address k (decide (0 < k))
  | firstRead => Slave.received address 31 false
  | readSetup m e => Slave.streaming f address (e.falls m) e.sclkPrev
  | readWait m e => Slave.streaming f address (e.falls m) e.sclkPrev
  | readRise m => Slave.streaming f address (m + 1) false
  | emit m e => Slave.streaming f address (e.falls m) e.sclkPrev

/-! ## The flash follows -/

theorem slave_step (address : BitVec 24) (n : Nat) (emitWord : Word) (dataReady : Bool) (ph : Phase)
    (h : ph.Valid n) :
    (ph.slave f address).step f (ph.master f address n emitWord).csReg
        (ph.master f address n emitWord).sclkReg (ph.master f address n emitWord).mosiReg =
      (ph.next n dataReady).slave f address := by
  cases ph with
  | sendSetup k =>
      cases k with
      | zero => exact Slave.step_select f address false false _
      | succ k => exact Slave.step_rise f address k (by simp only [Valid] at h; omega)
  | sendRise k =>
      simp only [Valid] at h
      have hlow := Slave.step_low f address k (decide (0 < k)) (Slave.txBit address k)
      by_cases hk : k = 31
      · subst hk
        exact hlow
      · simp only [next, if_neg hk]
        exact hlow
  | firstRead => exact Slave.step_lastRise f address
  | readSetup m e => cases e <;> exact Slave.step_streaming f address _ _ _ _
  | readWait m e =>
      cases e with
      | high => exact absurd rfl h.2
      | falling => exact Slave.step_streaming f address m true false false
      | low => exact Slave.step_streaming f address (m + 1) false false false
  | readRise m =>
      have hstep := Slave.step_streaming f address (m + 1) false false false
      by_cases hend : WordEnd n (m + 1)
      · simp only [next, if_pos hend]
        exact hstep
      · simp only [next, if_neg hend]
        exact hstep
  | emit m e =>
      have hstep := fun sclk => Slave.step_streaming f address (e.falls m) e.sclkPrev sclk false
      cases dataReady <;> cases e <;> exact hstep _

/-! ## The master walks -/

theorem sendSetup_step (address : BitVec 24) (n k : Nat) (emitWord : Word) (i : MasterIn)
    (hk : k < 32) :
    ((sendSetup k).master f address n emitWord).step i =
      (sendRise k).master f address n emitWord := by
  have hbit : ((0x03#8 ++ address : BitVec 32) <<< k).getLsbD 31 = Slave.txBit address k := by
    have hge : ¬ 31 < k := by omega
    rw [Slave.txBit, BitVec.getLsbD_shiftLeft]
    simp only [hge, decide_false, Bool.not_false, Bool.and_true]
    rfl
  simp only [Phase.master, sending, Master.step, hbit]

theorem sendRise_step (address : BitVec 24) (n k : Nat) (emitWord : Word) (i : MasterIn)
    (hk : k < 32) :
    ((sendRise k).master f address n emitWord).step i =
      ((sendRise k).next n i.dataReady).master f address n emitWord := by
  have hshift := Slave.shiftLeft_shiftConcat (0x03#8 ++ address : BitVec 32) k
  by_cases hlast : k = 31
  · subst hlast
    simp only [next, if_true, Phase.master, sending, Master.step, hshift]
    rfl
  · have hbits : ¬ 32 - k = 1 := by omega
    simp only [next, if_neg hlast, Phase.master, sending, Master.step, hshift, hbits, if_false,
      Nat.sub_sub, Nat.add_sub_cancel, Nat.succ_pos, decide_true, Bool.true_and]

theorem packedWord_of_end (address : BitVec 24) (n q : Nat) (hq : q < n)
    (hend : (q + 1) % 4 = 0 ∨ q + 1 = n) :
    packedWord f address n (q / 4) = partialWord f address (4 * (q / 4)) (q % 4 + 1) := by
  rw [packedWord]
  congr 1
  omega

theorem readRise_step (address : BitVec 24) (n m : Nat) (emitWord : Word) (i : MasterIn)
    (hm : m < 8 * n) (hmiso : i.miso = (f.byte address (m / 8)).getLsbD (7 - m % 8)) :
    ∃ emitWord', ((readRise m).master f address n emitWord).step i =
      ((readRise m).next n i.dataReady).master f address n emitWord' := by
  have hbyte := Slave.shiftConcat_ushiftRight (f.byte address (m / 8)) (m % 8) (by omega)
  rw [show 8 - 1 - m % 8 = 7 - m % 8 by omega, ← hmiso] at hbyte
  have hstep : ((readRise m).master f address n emitWord).step i =
      Master.readRise i.miso (reading f address n m .sReadRise false emitWord) := rfl
  rw [hstep]
  by_cases hr : m % 8 = 7
  · have hdiv : (m + 1) / 8 = m / 8 + 1 := by omega
    have hmod : (m + 1) % 8 = 0 := by omega
    have hwhole : (f.byte address (m / 8) >>> (8 - 7)).shiftConcat i.miso =
        f.byte address (m / 8) := by
      rw [hr] at hbyte
      rw [hbyte]
      exact BitVec.ushiftRight_zero _
    have hempty : f.byte address (m / 8 + 1) >>> (8 - 0) = 0#8 :=
      BitVec.ushiftRight_eq_zero (by decide)
    have hword : partialWord f address (4 * (m / 8 / 4)) (m / 8 % 4) |||
        ((f.byte address (m / 8)).setWidth 32 <<< (8 * (m / 8 % 4))) =
        partialWord f address (4 * (m / 8 / 4)) (m / 8 % 4 + 1) := by
      rw [partialWord, show 4 * (m / 8 / 4) + m / 8 % 4 = m / 8 by omega]
    have hiff : (m / 8 % 4 = 3 ∨ n - m / 8 = 1) ↔ WordEnd n (m + 1) := by
      rw [WordEnd, hdiv, hmod]
      omega
    refine ⟨partialWord f address (4 * (m / 8 / 4)) (m / 8 % 4 + 1), ?_⟩
    by_cases hend : WordEnd n (m + 1)
    · have hpacked := packedWord_of_end f address n (m / 8) (by omega) (hdiv ▸ hend.2)
      simp only [next, if_pos hend, Phase.master, Master.readRise, reading, Master.takeByte, hr,
        if_true, hwhole, hword, hiff, hdiv, hmod, hempty, Nat.add_sub_cancel, hpacked, Nat.sub_sub,
        Edge.sclk]
      rfl
    · have hcount : ¬ (m / 8 + 1) % 4 = 0 := fun h => hend ⟨hmod, .inl (hdiv ▸ h)⟩
      have hdiv' : (m / 8 + 1) / 4 = m / 8 / 4 := by omega
      have hmod' : (m / 8 + 1) % 4 = m / 8 % 4 + 1 := by omega
      simp only [next, if_neg hend, Phase.master, Master.readRise, reading, Master.takeByte, hr,
        if_true, hwhole, hword, hiff, hdiv, hmod, hdiv', hmod', hempty, Nat.sub_sub, Edge.sclk]
      rfl
  · have hdiv : (m + 1) / 8 = m / 8 := by omega
    have hmod : (m + 1) % 8 = m % 8 + 1 := by omega
    have hnot : ¬ WordEnd n (m + 1) := fun hend => by
      have hz := hend.1
      omega
    refine ⟨emitWord, ?_⟩
    simp only [next, if_neg hnot, Phase.master, Master.readRise, reading, hr, if_false, hbyte, hdiv,
      hmod, Edge.sclk]

theorem emit_step (address : BitVec 24) (n m : Nat) (e : Edge) (emitWord : Word) (i : MasterIn)
    (hv : (emit m e).Valid n) (hlast : ¬ (m = 8 * n ∧ i.dataReady = true)) :
    ∃ emitWord', ((emit m e).master f address n emitWord).step i =
      ((emit m e).next n i.dataReady).master f address n emitWord' := by
  obtain ⟨hpos, hle, hbyte, hend⟩ := hv
  have hlow : ∀ e : Edge, e.lower.sclk = false := by
    intro e
    cases e <;> rfl
  refine ⟨packedWord f address n ((m / 8 - 1) / 4), ?_⟩
  cases hready : i.dataReady with
  | false =>
      simp only [next, Phase.master, reading, Master.step, Master.emit, hready, Bool.false_eq_true,
        if_false, hlow]
  | true =>
      have hmore : ¬ m = 8 * n := fun h => hlast ⟨h, hready⟩
      have hremaining : ¬ n - m / 8 = 0 := by omega
      have hword : m / 8 % 4 = 0 := by omega
      simp only [next, Phase.master, reading, Master.step, Master.emit, hready, if_true, hremaining,
        if_false, hword, partialWord, hlow]

/-- Until the last word is taken, the master goes from phase to phase. -/
theorem master_step (address : BitVec 24) (n : Nat) (emitWord : Word) (ph : Phase) (i : MasterIn)
    (hv : ph.Valid n) (hlast : ¬ (ph.Last n ∧ i.dataReady = true))
    (hmiso : i.miso = (ph.slave f address).miso (ph.master f address n emitWord).csReg) :
    ∃ emitWord', (ph.master f address n emitWord).step i =
      (ph.next n i.dataReady).master f address n emitWord' := by
  cases ph with
  | sendSetup k => exact ⟨emitWord, sendSetup_step f address n k emitWord i hv⟩
  | sendRise k => exact ⟨emitWord, sendRise_step f address n k emitWord i hv⟩
  | firstRead =>
      refine ⟨emitWord, ?_⟩
      have hshift : (0x03#8 ++ address : BitVec 32) <<< 32 = 0#32 :=
        BitVec.shiftLeft_eq_zero (by decide)
      have hempty : f.byte address 0 >>> 8 = 0#8 := BitVec.ushiftRight_eq_zero (by decide)
      simp [next, Phase.master, sending, reading, Master.step, hshift, hempty, partialWord]
  | readSetup m e => exact ⟨emitWord, rfl⟩
  | readWait m e => exact ⟨emitWord, rfl⟩
  | readRise m => exact readRise_step f address n m emitWord i hv (hmiso.trans
      (Slave.miso_streaming f address m false))
  | emit m e => exact emit_step f address n m e emitWord i hv hlast

theorem next_valid (n : Nat) (ph : Phase) (dataReady : Bool) (hv : ph.Valid n) (hn : 0 < n)
    (hlast : ¬ (ph.Last n ∧ dataReady = true)) : (ph.next n dataReady).Valid n := by
  cases ph with
  | sendSetup k => exact hv
  | sendRise k =>
      by_cases hk : k = 31
      · simp only [next, if_pos hk, Valid]
      · simp only [Valid] at hv
        simp only [next, if_neg hk, Valid]
        omega
  | firstRead => exact ⟨by omega, by decide⟩
  | readSetup m e => exact ⟨hv, by cases e <;> decide⟩
  | readWait m e => exact hv.1
  | readRise m =>
      simp only [Valid] at hv
      by_cases hend : WordEnd n (m + 1)
      · simp only [next, if_pos hend, Valid]
        exact ⟨by omega, by omega, hend⟩
      · simp only [next, if_neg hend, Valid]
        unfold WordEnd at hend
        omega
  | emit m e =>
      cases dataReady with
      | false => exact hv
      | true =>
          obtain ⟨_, hle, _⟩ := hv
          have hmore : ¬ m = 8 * n := fun h => hlast ⟨h, rfl⟩
          simp only [next, if_true, Valid]
          omega

end Phase

end SecureBoot.Spi
