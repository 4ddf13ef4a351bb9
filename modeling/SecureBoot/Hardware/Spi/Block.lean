import SecureBoot.Base.Clocked
import SecureBoot.Hardware.Spi.Link

/-!
# The SPI register block

`SecureBootSPIImpl`: the registers, the command decoupling, the sticky DONE bit
and the FIFO around master and flash. A cycle carries at most one bus access;
an access that is not accepted is presented again by the router.
-/

namespace SecureBoot.Spi

open Words

/-- What the router presents in a cycle. Reads of the other registers change nothing. -/
inductive Access where
  | idle
  | addr (value : Word)
  | len (value : Word)
  | command (value : Word)
  | data
deriving DecidableEq, Repr

structure Block where
  addrReg : Word
  lenReg : Word
  doneSticky : Bool
  master : Master
  slave : Slave
  fifo : List Word
deriving DecidableEq, Repr

namespace Block

def fifoDepth : Nat := 16

def reset : Block where
  addrReg := 0
  lenReg := 4
  doneSticky := false
  master := .reset
  slave := .deselected false
  fifo := []

variable (f : Storage) (b : Block)

/-! ## Wires -/

/-- `command.fire` with its bits. -/
def fired : Access → Option Word
  | .command value => if b.master.busy then none else some value
  | _ => none

def startPulse (a : Access) : Bool := ((b.fired a).map fun value => value.getLsbD 0).getD false

def clearsDone (a : Access) : Bool :=
  ((b.fired a).map fun value => value.getLsbD 0 || value.getLsbD 1).getD false

def enqReady : Bool := b.fifo.length < fifoDepth

def status : Word :=
  BitVec.ofBool (!b.fifo.isEmpty) ++ BitVec.ofBool b.master.errorReg ++
    BitVec.ofBool b.doneSticky ++ BitVec.ofBool b.master.busy |>.setWidth 32

def masterIn (a : Access) : MasterIn where
  start := b.startPulse a
  address := b.addrReg.setWidth 24
  lengthBytes := b.lenReg
  dataReady := b.enqReady
  miso := b.slave.miso b.master.csReg

/-! ## The clock edge -/

def step (b : Block) (a : Access) : Block where
  addrReg := match a with
    | .addr value => value
    | _ => b.addrReg
  lenReg := match a with
    | .len value => value
    | _ => b.lenReg
  doneSticky := b.master.doneReg || (b.doneSticky && !b.clearsDone a)
  master := b.master.step (b.masterIn a)
  slave := b.slave.step f b.master.csReg b.master.sclkReg b.master.mosiReg
  fifo := (if a = .data then b.fifo.tail else b.fifo) ++
    (if b.master.dataValid && b.enqReady then [b.master.emitWord] else [])

theorem step_master (a : Access) : (b.step f a).master = b.master.step (b.masterIn a) := rfl

theorem step_slave (a : Access) :
    (b.step f a).slave = b.slave.step f b.master.csReg b.master.sclkReg b.master.mosiReg := rfl

theorem step_doneSticky (a : Access) :
    (b.step f a).doneSticky = (b.master.doneReg || (b.doneSticky && !b.clearsDone a)) := rfl

/-- The transaction that the master begins in this cycle. -/
def begun (a : Access) : Option (BitVec 24 × Nat) :=
  if b.master.state = .sIdle ∧ b.startPulse a = true ∧ b.lenReg ≠ 0 then
    some (b.addrReg.setWidth 24, b.lenReg.toNat)
  else none

/-- The FIFO takes the last word of a transaction in this cycle. -/
def handsOverLast : Prop :=
  b.master.state = .sEmit ∧ b.enqReady = true ∧ b.master.bytesRemaining = 0

/-! ## Reachable states -/

/-- No transaction is under way. -/
structure Rests : Prop where
  csReg : b.master.csReg = true
  sclkReg : b.master.sclkReg = false
  errorReg : b.master.errorReg = false
  state : (b.master.state = .sIdle ∧ b.slave = .deselected false) ∨
    (b.master.state = .sDone ∧ b.master.doneReg = true)

/-- The master is in phase `ph` of a transaction of `n` bytes. -/
structure InPhase (address : BitVec 24) (n : Nat) (ph : Phase) : Prop where
  positive : 0 < n
  valid : ph.Valid n
  master : ∃ emitWord, b.master = ph.master f address n emitWord
  slave : b.slave = ph.slave f address

variable {f b}

theorem not_fired_of_busy (h : b.master.busy = true) (a : Access) : b.fired a = none := by
  cases a with
  | command value => exact if_pos h
  | idle => rfl
  | addr value => rfl
  | len value => rfl
  | data => rfl

theorem not_fired_of_ne {a : Access} (h : ∀ value, a ≠ .command value) : b.fired a = none := by
  cases a with
  | command value => exact absurd rfl (h value)
  | idle => rfl
  | addr value => rfl
  | len value => rfl
  | data => rfl

theorem startPulse_of_not_fired {a : Access} (h : b.fired a = none) : b.startPulse a = false := by
  rw [startPulse, h]
  rfl

theorem clearsDone_of_not_fired {a : Access} (h : b.fired a = none) : b.clearsDone a = false := by
  rw [clearsDone, h]
  rfl

namespace InPhase

variable {address : BitVec 24} {n : Nat} {ph : Phase}

theorem busy (h : b.InPhase f address n ph) : b.master.busy = true := by
  obtain ⟨_, _, ⟨w, hm⟩, _⟩ := h
  rw [hm]
  cases ph <;> rfl

theorem doneReg (h : b.InPhase f address n ph) : b.master.doneReg = false := by
  obtain ⟨_, _, ⟨w, hm⟩, _⟩ := h
  rw [hm]
  cases ph <;> rfl

theorem errorReg (h : b.InPhase f address n ph) : b.master.errorReg = false := by
  obtain ⟨_, _, ⟨w, hm⟩, _⟩ := h
  rw [hm]
  cases ph <;> rfl

theorem handsOverLast_iff (h : b.InPhase f address n ph) :
    b.handsOverLast ↔ ph.Last n ∧ b.enqReady = true := by
  obtain ⟨_, hv, ⟨w, hm⟩, _⟩ := h
  rw [handsOverLast, hm]
  cases ph with
  | emit m e =>
      obtain ⟨_, hle, hend⟩ := hv
      have hbyte := hend.1
      have hremaining : ((Phase.emit m e).master f address n w).bytesRemaining = n - m / 8 := rfl
      have hstate : ((Phase.emit m e).master f address n w).state = .sEmit := rfl
      rw [hremaining, hstate, Phase.Last]
      constructor
      · intro h
        rcases h with ⟨_, hready, hzero⟩
        exact ⟨by omega, hready⟩
      · intro h
        rcases h with ⟨hlast, hready⟩
        exact ⟨rfl, hready, by omega⟩
  | sendSetup k => simp [Phase.master, Phase.sending, Phase.Last]
  | sendRise k => simp [Phase.master, Phase.Last]
  | firstRead => simp [Phase.master, Phase.Last]
  | readSetup m e => simp [Phase.master, Phase.reading, Phase.Last]
  | readWait m e => simp [Phase.master, Phase.reading, Phase.Last]
  | readRise m => simp [Phase.master, Phase.reading, Phase.Last]

/-- One cycle of a transaction, whatever the bus does. -/
theorem step (h : b.InPhase f address n ph) (a : Access) (hlast : ¬ b.handsOverLast) :
    (b.step f a).InPhase f address n (ph.next n b.enqReady) := by
  have hnot : ¬ (ph.Last n ∧ b.enqReady = true) := fun hl => hlast (h.handsOverLast_iff.mpr hl)
  obtain ⟨hn, hv, ⟨w, hm⟩, hs⟩ := h
  have hmaster := Phase.master_step f address n w ph (b.masterIn a) hv hnot
    (by rw [masterIn, hs, hm])
  have hslave := Phase.slave_step f address n w b.enqReady ph hv
  refine ⟨hn, Phase.next_valid n ph b.enqReady hv hn hnot, ?_, ?_⟩
  · rw [step_master, hm]
    exact hmaster
  · rw [step_slave, hm, hs]
    exact hslave

/-- The last word leaves the master in `sDone`. -/
theorem finish (h : b.InPhase f address n ph) (a : Access) (hlast : b.handsOverLast) :
    (b.step f a).Rests ∧ (b.step f a).master.state = .sDone := by
  obtain ⟨hfinal, hready⟩ := h.handsOverLast_iff.mp hlast
  obtain ⟨_, _, ⟨w, hm⟩, _⟩ := h
  cases ph with
  | emit m e =>
      simp only [Phase.Last] at hfinal
      have hin : (b.masterIn a).dataReady = true := hready
      have hzero : n - m / 8 = 0 := by omega
      have hstep : (b.step f a).master =
          { Phase.reading f address n m .sDone false (packedWord f address n ((m / 8 - 1) / 4)) with
            wordReg := 0, wordByteCount := 0, csReg := true, doneReg := true } := by
        rw [step_master, hm]
        simp [Master.step, Master.emit, Phase.master, Phase.reading, hin, hzero]
      exact ⟨⟨congrArg Master.csReg hstep, congrArg Master.sclkReg hstep,
        congrArg Master.errorReg hstep,
        .inr ⟨congrArg Master.state hstep, congrArg Master.doneReg hstep⟩⟩,
        congrArg Master.state hstep⟩
  | sendSetup k => exact hfinal.elim
  | sendRise k => exact hfinal.elim
  | firstRead => exact hfinal.elim
  | readSetup m e => exact hfinal.elim
  | readWait m e => exact hfinal.elim
  | readRise m => exact hfinal.elim

end InPhase

namespace Rests

theorem not_busy (h : b.Rests) : b.master.busy = false := by
  rcases h.state with ⟨hs, _⟩ | ⟨hs, _⟩
  · simp [Master.busy, hs]
  · simp [Master.busy, hs]

theorem step_deselected (h : b.Rests) (a : Access) : (b.step f a).slave = .deselected false := by
  rw [step_slave, h.csReg, h.sclkReg]
  rfl

theorem step_begins (h : b.Rests) {a : Access} (hidle : b.master.state = .sIdle)
    (hstart : b.startPulse a = true) (hlen : b.lenReg ≠ 0) :
    (b.step f a).InPhase f (b.addrReg.setWidth 24) b.lenReg.toNat (.sendSetup 0) := by
  have hpos : 0 < b.lenReg.toNat := by
    have hne : b.lenReg.toNat ≠ 0 := fun hz => hlen (BitVec.eq_of_toNat_eq hz)
    omega
  refine ⟨hpos, show 0 < 32 by decide, ⟨b.master.emitWord, ?_⟩, h.step_deselected a⟩
  simp only [step_master, Master.step, hidle, Master.idle, masterIn, hstart, if_true]
  rw [if_neg hlen]
  simp [Phase.master, Phase.sending]

theorem step_idle (h : b.Rests) {a : Access} (hidle : b.master.state = .sIdle)
    (hstart : b.startPulse a = true → b.lenReg = 0) : (b.step f a).Rests := by
  cases hpulse : b.startPulse a with
  | false =>
      have hmaster : (b.step f a).master =
          { b.master with
            doneReg := false, csReg := true, sclkReg := false, mosiReg := false
            errorReg := false } := by
        simp [step_master, Master.step, hidle, Master.idle, masterIn, hpulse]
      refine ⟨?_, ?_, ?_, .inl ⟨?_, h.step_deselected a⟩⟩
      all_goals
        rw [hmaster]
      exact hidle
  | true =>
      have hmaster : (b.step f a).master =
          { b.master with
            doneReg := true, csReg := true, sclkReg := false, mosiReg := false
            errorReg := false, state := .sDone } := by
        simp [step_master, Master.step, hidle, Master.idle, masterIn, hpulse, hstart hpulse]
      refine ⟨?_, ?_, ?_, .inr ⟨?_, ?_⟩⟩
      all_goals
        rw [hmaster]

theorem step_done (h : b.Rests) (a : Access) (hdone : b.master.state = .sDone)
    (hreg : b.master.doneReg = true) : (b.step f a).Rests := by
  have hmaster : (b.step f a).master =
      { b.master with
        csReg := true, sclkReg := false
        state := if b.startPulse a then .sDone else .sIdle } := by
    rw [step_master]
    cases hstart : b.startPulse a with
    | true => simp [Master.step, hdone, masterIn, hstart]
    | false => simp [Master.step, hdone, masterIn, hstart]
  refine ⟨?_, ?_, ?_, ?_⟩
  · rw [hmaster]
  · rw [hmaster]
  · rw [hmaster]
    exact h.errorReg
  · cases hstart : b.startPulse a with
    | true => exact .inr ⟨by rw [hmaster, hstart]; rfl, by rw [hmaster]; exact hreg⟩
    | false => exact .inl ⟨by rw [hmaster, hstart]; rfl, h.step_deselected a⟩

/-- A resting block keeps resting unless a transaction begins, and then sends its first bit. -/
theorem step (h : b.Rests) (a : Access) :
    (b.begun a = none ∧ (b.step f a).Rests) ∨
      ∃ address n, b.begun a = some (address, n) ∧
        (b.step f a).InPhase f address n (.sendSetup 0) := by
  unfold begun
  by_cases hbegins : b.master.state = .sIdle ∧ b.startPulse a = true ∧ b.lenReg ≠ 0
  · rw [if_pos hbegins]
    exact .inr ⟨_, _, rfl, h.step_begins hbegins.1 hbegins.2.1 hbegins.2.2⟩
  · rw [if_neg hbegins]
    refine .inl ⟨rfl, ?_⟩
    rcases h.state with ⟨hidle, _⟩ | ⟨hdone, hreg⟩
    · refine h.step_idle hidle fun hstart => ?_
      by_cases hlen : b.lenReg = 0
      · exact hlen
      · exact absurd ⟨hidle, hstart, hlen⟩ hbegins
    · exact h.step_done a hdone hreg

end Rests

/-- Every state from reset on: at rest or in some phase of some transaction. -/
def Linked (f : Storage) (b : Block) : Prop :=
  b.Rests ∨ ∃ address n ph, b.InPhase f address n ph

theorem linked_reset : Linked f reset := .inl ⟨rfl, rfl, rfl, .inl ⟨rfl, rfl⟩⟩

theorem Linked.step (h : Linked f b) (a : Access) : Linked f (b.step f a) := by
  rcases h with h | ⟨address, n, ph, h⟩
  · rcases h.step (f := f) a with ⟨_, hr⟩ | ⟨address, n, _, hp⟩
    · exact .inl hr
    · exact .inr ⟨address, n, _, hp⟩
  · by_cases hlast : b.handsOverLast
    · exact .inl (h.finish a hlast).1
    · exact .inr ⟨address, n, _, h.step a hlast⟩

/-- The block after a sequence of cycles. -/
def run (f : Storage) (b : Block) (accesses : List Access) : Block :=
  Clocked.run (Block.step f) b accesses

theorem linked_run (accesses : List Access) : Linked f (run f reset accesses) :=
  Clocked.run_invariant (fun _ a h => h.step a) reset linked_reset accesses

/-! ## START and DONE -/

/-- No word of `accesses`' cycles is the last of a transaction. -/
def Unfinished (f : Storage) (b : Block) : List Access → Prop
  | [] => True
  | a :: accesses => ¬ b.handsOverLast ∧ Unfinished f (b.step f a) accesses

/-- What a START that fires promises: the transaction of the registers is begun, no other one begins
before its last word has been handed over, and DONE reads 0 until then. -/
structure StartContract (f : Storage) (b : Block) (value : Word) : Prop where
  begins : b.begun (.command value) = some (b.addrReg.setWidth 24, b.lenReg.toNat)
  sends : (b.step f (.command value)).InPhase f (b.addrReg.setWidth 24) b.lenReg.toNat
    (.sendSetup 0)
  once : ∀ later a, Unfinished f (b.step f (.command value)) later →
    (run f (b.step f (.command value)) later).begun a = none
  done : ∀ later, Unfinished f (b.step f (.command value)) later →
    (run f (b.step f (.command value)) later).doneSticky = false

theorem begun_of_busy (h : b.master.busy = true) (a : Access) : b.begun a = none := by
  rw [begun, startPulse_of_not_fired (not_fired_of_busy h a)]
  simp

/-- A transaction whose last word is not handed over yet is still under way, with DONE clear. -/
theorem InPhase.run {address : BitVec 24} {n : Nat} {ph : Phase} (h : b.InPhase f address n ph)
    (hdone : b.doneSticky = false) (later : List Access) (hun : Unfinished f b later) :
    (∃ ph', (run f b later).InPhase f address n ph') ∧ (run f b later).doneSticky = false := by
  induction later generalizing b ph with
  | nil => exact ⟨⟨ph, h⟩, hdone⟩
  | cons a later ih =>
      have hsticky : (b.step f a).doneSticky = false := by
        rw [step_doneSticky, h.doneReg, hdone]
        rfl
      exact ih (h.step a hun.1) hsticky hun.2

theorem StartContract.ofIdle {value : Word} (hrests : b.Rests) (hidle : b.master.state = .sIdle)
    (hreg : b.master.doneReg = false) (hstart : value.getLsbD 0 = true) (hlen : b.lenReg ≠ 0) :
    StartContract f b value := by
  have hfired : b.fired (.command value) = some value := by simp [fired, hrests.not_busy]
  have hpulse : b.startPulse (.command value) = true := by simp [startPulse, hfired, hstart]
  have hclears : b.clearsDone (.command value) = true := by simp [clearsDone, hfired, hstart]
  have hbegun : b.begun (.command value) = some (b.addrReg.setWidth 24, b.lenReg.toNat) := by
    simpa [begun, hidle, hpulse] using hlen
  have hsticky : (b.step f (.command value)).doneSticky = false := by
    rw [step_doneSticky, hreg, hclears]
    simp
  rcases hrests.step (f := f) (.command value) with ⟨hnone, _⟩ | ⟨address, n, hsome, hphase⟩
  · rw [hbegun] at hnone
    cases hnone
  · rw [hbegun] at hsome
    cases hsome
    have hrun := hphase.run hsticky
    exact {
      begins := hbegun
      sends := hphase
      once := fun later a hun => begun_of_busy (hrun later hun).1.choose_spec.busy a
      done := fun later hun => (hrun later hun).2 }

/-- A START that fires with a length keeps its promise exactly when the master is in `sIdle` and
its DONE pulse is over. -/
theorem startContract_iff (f : Storage) (accesses : List Access) (value : Word)
    (hready : (run f reset accesses).master.busy = false) (hstart : value.getLsbD 0 = true)
    (hlen : (run f reset accesses).lenReg ≠ 0) :
    StartContract f (run f reset accesses) value ↔
      (run f reset accesses).master.state = .sIdle ∧
        (run f reset accesses).master.doneReg = false := by
  have hlinked : Linked f (run f reset accesses) := linked_run accesses
  generalize run f reset accesses = b at *
  constructor
  · intro hc
    have hbegins := hc.begins
    have hdone := hc.done [] trivial
    have hidle : b.master.state = .sIdle := by
      by_cases hs : b.master.state = .sIdle
      · exact hs
      · simp [begun, hs] at hbegins
    refine ⟨hidle, ?_⟩
    cases hreg : b.master.doneReg with
    | false => rfl
    | true =>
        have hsticky : (b.step f (.command value)).doneSticky = true := by
          rw [step_doneSticky, hreg]
          rfl
        rw [run, Clocked.run_nil, hsticky] at hdone
        cases hdone
  · intro h
    rcases hlinked with hrests | ⟨address, n, ph, hphase⟩
    · exact .ofIdle hrests h.1 h.2 hstart hlen
    · have hbusy := hphase.busy
      rw [hready] at hbusy
      cases hbusy

/-- A flash of one megabyte with nothing in it. -/
def blankStorage : Storage := ⟨20, by decide, by decide, fun _ => 0⟩

/-- The first START after reset. -/
theorem firstStart_contract : StartContract blankStorage (run blankStorage reset []) 1 :=
  (startContract_iff blankStorage [] 1 rfl rfl (by decide)).mpr ⟨rfl, rfl⟩

/-- A START that is presented while a transaction runs is released in `sDone` and gets lost. -/
theorem heldStart_lost : ∃ accesses : List Access,
    (run blankStorage reset accesses).master.busy = false ∧
      (run blankStorage reset accesses).lenReg ≠ 0 ∧
      ¬ StartContract blankStorage (run blankStorage reset accesses) 1 := by
  refine ⟨List.replicate 162 (.command 1), by decide +kernel, by decide +kernel, ?_⟩
  intro hc
  have hbegins := hc.begins
  have hnone : (run blankStorage reset (List.replicate 162 (.command 1))).begun (.command 1) =
      none := by decide +kernel
  rw [hnone] at hbegins
  cases hbegins

end Block

end SecureBoot.Spi
