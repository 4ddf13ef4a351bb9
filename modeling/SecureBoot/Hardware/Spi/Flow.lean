import SecureBoot.Base.Memory
import SecureBoot.Hardware.Spi.Block

/-!
# The stream of words

While a transaction runs, the FIFO holds the words that were sent and not yet
taken. The phase counts the words sent, and bounds the time to the next one.
-/

namespace SecureBoot.Spi

open Words

variable (f : Storage)

/-! ## The bytes of a word -/

/-- The flash as a memory: addresses wrap at the depth. -/
def Storage.memory : Memory := fun a => f.mem (a % f.depthBytes)

theorem byteAt_or (x y : Word) (j : Nat) : byteAt (x ||| y) j = byteAt x j ||| byteAt y j := by
  simp [byteAt, BitVec.ushiftRight_or_distrib]

theorem byteAt_shiftLeft (b : Byte) (c j : Nat) (hj : j < 4) :
    byteAt (b.setWidth 32 <<< (8 * c) : Word) j = if j = c then b else 0 := by
  apply BitVec.eq_of_getLsbD_eq
  intro k hk
  have hlt : 8 * j + k < 32 := by omega
  simp only [byteAt, BitVec.getLsbD_setWidth, BitVec.getLsbD_ushiftRight, BitVec.getLsbD_shiftLeft,
    hk, hlt, decide_true, Bool.true_and]
  rcases Nat.lt_trichotomy j c with hlo | heq | hhi
  · simp [show 8 * j + k < 8 * c by omega, show ¬ j = c by omega]
  · subst heq
    simp [show k < 32 by omega]
  · have hout : b.getLsbD (8 * j + k - 8 * c) = false := BitVec.getLsbD_of_ge b _ (by omega)
    simp [hout, show ¬ j = c by omega]

theorem byteAt_partialWord (address : BitVec 24) (base count j : Nat) (hj : j < 4) :
    byteAt (partialWord f address base count) j =
      if j < count then f.byte address (base + j) else 0 := by
  induction count with
  | zero => simp [partialWord, byteAt]
  | succ count ih =>
      rw [partialWord, byteAt_or, ih, byteAt_shiftLeft _ _ _ hj]
      rcases Nat.lt_trichotomy j count with hlo | heq | hhi
      · simp [hlo, show j < count + 1 by omega, show ¬ j = count by omega]
      · simp [heq]
      · simp [show ¬ j < count by omega, show ¬ j < count + 1 by omega, show ¬ j = count by omega]

/-- What software keeps of word `i`. -/
theorem leBytes_packedWord (address : BitVec 24) (n i : Nat) :
    (leBytes (packedWord f address n i)).take (n - 4 * i) =
      f.memory.read (address.toNat + 4 * i) (min (n - 4 * i) 4) := by
  have hbytes : leBytes (packedWord f address n i) =
      (List.range 4).map (byteAt (packedWord f address n i)) := rfl
  rw [hbytes, ← List.map_take, List.take_range]
  apply List.map_congr_left
  intro j hj
  have hlt := List.mem_range.mp hj
  rw [packedWord, byteAt_partialWord f address _ _ j (by omega), if_pos (by omega),
    Storage.byte, Storage.memory, Nat.add_assoc]

theorem read_packedWord (address : BitVec 24) (n i : Nat) :
    f.memory.read (address.toNat + 4 * i) (n - 4 * i) =
      (leBytes (packedWord f address n i)).take (n - 4 * i) ++
        f.memory.read (address.toNat + 4 * (i + 1)) (n - 4 * (i + 1)) := by
  rw [leBytes_packedWord, Memory.read_split, Nat.add_assoc, Nat.sub_sub, Nat.mul_succ]

/-! ## Counting -/

def wordCount (n : Nat) : Nat := (n + 3) / 4

namespace Phase

/-- The words handed over so far. -/
def words : Phase → Nat
  | sendSetup _ => 0
  | sendRise _ => 0
  | firstRead => 0
  | readSetup m _ => m / 32
  | readWait m _ => m / 32
  | readRise m => m / 32
  | emit m _ => (m / 8 - 1) / 4

/-- A bound on the cycles until the next word is on offer. -/
def rank : Phase → Nat
  | sendSetup k => 96 + 2 * (32 - k)
  | sendRise k => 95 + 2 * (32 - k)
  | firstRead => 96
  | readSetup m _ => 3 * (32 - m % 32)
  | readWait m _ => 3 * (32 - m % 32) - 1
  | readRise m => 3 * (32 - m % 32) - 2
  | emit _ _ => 0

def offers : Phase → Bool
  | emit _ _ => true
  | _ => false

theorem words_lt (n : Nat) (ph : Phase) (hn : 0 < n) (hv : ph.Valid n) :
    ph.words < wordCount n := by
  unfold wordCount
  cases ph with
  | sendSetup k => simp only [words]; omega
  | sendRise k => simp only [words]; omega
  | firstRead => simp only [words]; omega
  | readSetup m e => simp only [words, Valid] at *; omega
  | readWait m e => simp only [words, Valid] at *; omega
  | readRise m => simp only [words, Valid] at *; omega
  | emit m e => simp only [words, Valid] at *; omega

theorem words_last (n : Nat) (ph : Phase) (hn : 0 < n) (hlast : ph.Last n) :
    ph.words + 1 = wordCount n := by
  unfold wordCount
  cases ph with
  | emit m e =>
      simp only [words, Last] at *
      omega
  | sendSetup k => exact hlast.elim
  | sendRise k => exact hlast.elim
  | firstRead => exact hlast.elim
  | readSetup m e => exact hlast.elim
  | readWait m e => exact hlast.elim
  | readRise m => exact hlast.elim

theorem words_next (n : Nat) (ph : Phase) (dataReady : Bool) (hv : ph.Valid n)
    (hlast : ¬ (ph.Last n ∧ dataReady = true)) :
    (ph.next n dataReady).words = ph.words + if ph.offers && dataReady then 1 else 0 := by
  cases ph with
  | sendSetup k => rfl
  | sendRise k =>
      by_cases hk : k = 31
      · simp only [next, if_pos hk, words, offers]
        rfl
      · simp only [next, if_neg hk, words, offers]
        rfl
  | firstRead => rfl
  | readSetup m e => rfl
  | readWait m e => rfl
  | readRise m =>
      simp only [Valid] at hv
      by_cases hend : WordEnd n (m + 1)
      · have hbyte := hend.1
        simp only [next, if_pos hend, words, offers, Bool.false_and, Bool.false_eq_true, if_false]
        omega
      · simp only [next, if_neg hend, words, offers, Bool.false_and, Bool.false_eq_true, if_false]
        unfold WordEnd at hend
        omega
  | emit m e =>
      obtain ⟨hpos, hle, hbyte, hend⟩ := hv
      cases dataReady with
      | false => rfl
      | true =>
          have hmore : ¬ m = 8 * n := fun h => hlast ⟨h, rfl⟩
          simp only [next, words, offers, if_true, Bool.and_self]
          omega

theorem rank_next (n : Nat) (ph : Phase) (dataReady : Bool) (hv : ph.Valid n)
    (hoffers : ph.offers = false) : (ph.next n dataReady).rank < ph.rank := by
  cases ph with
  | sendSetup k =>
      simp only [next, rank]
      omega
  | sendRise k =>
      simp only [Valid] at hv
      by_cases hk : k = 31
      · simp only [next, if_pos hk, rank]
        omega
      · simp only [next, if_neg hk, rank]
        omega
  | firstRead =>
      simp only [next, rank]
      omega
  | readSetup m e =>
      simp only [next, rank]
      omega
  | readWait m e =>
      simp only [next, rank]
      omega
  | readRise m =>
      by_cases hend : WordEnd n (m + 1)
      · simp only [next, if_pos hend, rank]
        omega
      · simp only [next, if_neg hend, rank]
        unfold WordEnd at hend
        omega
  | emit m e => cases hoffers

theorem rank_le (ph : Phase) : ph.rank ≤ 160 := by
  cases ph with
  | sendSetup k => simp only [rank]; omega
  | sendRise k => simp only [rank]; omega
  | firstRead => simp only [rank]; omega
  | readSetup m e => simp only [rank]; omega
  | readWait m e => simp only [rank]; omega
  | readRise m => simp only [rank]; omega
  | emit m e => simp only [rank]; omega

end Phase

/-! ## Words in the FIFO -/

namespace Block

variable {f} {b : Block} {address : BitVec 24} {n : Nat} {ph : Phase}

theorem InPhase.dataValid (h : b.InPhase f address n ph) : b.master.dataValid = ph.offers := by
  rcases h.master with ⟨w, hm⟩
  rw [hm]
  cases ph <;> rfl

theorem InPhase.emitWord (h : b.InPhase f address n ph) (hoffers : ph.offers = true) :
    b.master.emitWord = packedWord f address n ph.words := by
  rcases h.master with ⟨w, hm⟩
  rw [hm]
  cases ph with
  | emit m e => rfl
  | sendSetup k => cases hoffers
  | sendRise k => cases hoffers
  | firstRead => cases hoffers
  | readSetup m e => cases hoffers
  | readWait m e => cases hoffers
  | readRise m => cases hoffers

/-- Under way, with `sent` words handed over and DONE clear. -/
def Running (f : Storage) (address : BitVec 24) (n sent : Nat) (b : Block) : Prop :=
  ∃ ph, b.InPhase f address n ph ∧ ph.words = sent ∧ b.doneSticky = false

/-- All words are handed over; DONE rises in the cycle after `sDone`. -/
structure Finishing (n sent : Nat) (b : Block) : Prop where
  all : sent = wordCount n
  rests : b.Rests
  done : b.master.state = .sDone ∧ b.doneSticky = false ∨
    b.master.state = .sIdle ∧ b.doneSticky = true

/-- A transaction of which software has taken `taken` words. -/
structure Flowing (f : Storage) (address : BitVec 24) (n taken : Nat) (b : Block) : Prop where
  positive : 0 < n
  stream : ∃ sent, taken ≤ sent ∧
    b.fifo = ((List.range sent).map (packedWord f address n)).drop taken ∧
    (Running f address n sent b ∨ Finishing n sent b)

/-- The words that an access takes out of the FIFO. -/
def takes : Access → Nat
  | .data => 1
  | _ => 0

theorem step_fifo (a : Access) : (b.step f a).fifo =
    (if a = .data then b.fifo.tail else b.fifo) ++
      (if b.master.dataValid && b.enqReady then [b.master.emitWord] else []) := rfl

theorem Rests.dataValid (h : b.Rests) : b.master.dataValid = false := by
  rcases h.state with ⟨hs, _⟩ | ⟨hs, _⟩
  · simp [Master.dataValid, hs]
  · simp [Master.dataValid, hs]

/-- Without a start a resting master is idle in the next cycle. -/
theorem Rests.step_state (h : b.Rests) {a : Access} (hstart : b.startPulse a = false) :
    (b.step f a).master.state = .sIdle := by
  rcases h.state with ⟨hs, _⟩ | ⟨hs, _⟩
  · simp [step_master, Master.step, hs, Master.idle, masterIn, hstart]
  · simp [step_master, Master.step, hs, masterIn, hstart]

theorem Rests.step_rests (h : b.Rests) {a : Access} (hstart : b.startPulse a = false) :
    (b.step f a).Rests := by
  rcases h.step (f := f) a with ⟨_, hr⟩ | ⟨address, n, hsome, _⟩
  · exact hr
  · simp [Block.begun, hstart] at hsome

theorem Finishing.step {sent : Nat} (h : b.Finishing n sent) {a : Access}
    (ha : ∀ value, a ≠ .command value) : (b.step f a).Finishing n sent where
  all := h.all
  rests := h.rests.step_rests (startPulse_of_not_fired (not_fired_of_ne ha))
  done := by
    refine .inr ⟨h.rests.step_state (startPulse_of_not_fired (not_fired_of_ne ha)), ?_⟩
    rw [step_doneSticky, clearsDone_of_not_fired (not_fired_of_ne ha)]
    rcases h.done with ⟨hs, _⟩ | ⟨_, hd⟩
    · rcases h.rests.state with ⟨hidle, _⟩ | ⟨_, hreg⟩
      · rw [hidle] at hs
        cases hs
      · rw [hreg]
        rfl
    · rw [hd]
      simp

/-- What a cycle adds to the words that were sent. -/
def sends (b : Block) : Nat := if b.master.dataValid && b.enqReady then 1 else 0

theorem Running.step {sent : Nat} (h : b.Running f address n sent) (hn : 0 < n) (a : Access) :
    (b.step f a).Running f address n (sent + b.sends) ∨
      (b.step f a).Finishing n (sent + b.sends) := by
  rcases h with ⟨ph, hphase, hwords, hdone⟩
  have hsticky : (b.step f a).doneSticky = false := by
    rw [step_doneSticky, hphase.doneReg, hdone]
    rfl
  by_cases hlast : b.handsOverLast
  · have hfinal := hphase.handsOverLast_iff.mp hlast
    have hsends : b.sends = 1 := by
      simp [sends, Master.dataValid, hlast.1, hlast.2.1]
    have hfinish := hphase.finish (f := f) a hlast
    refine .inr ⟨?_, hfinish.1, .inl ⟨hfinish.2, hsticky⟩⟩
    rw [hsends, ← hwords]
    exact Phase.words_last n ph hn hfinal.1
  · have hnot : ¬ (ph.Last n ∧ b.enqReady = true) := fun hl =>
      hlast (hphase.handsOverLast_iff.mpr hl)
    have hnext := Phase.words_next n ph b.enqReady hphase.valid hnot
    refine .inl ⟨_, hphase.step a hlast, ?_, hsticky⟩
    rw [hnext, hwords, sends, hphase.dataValid]

/-- A word that is sent in this cycle is the next one of the transaction. -/
theorem Running.sent {sent : Nat} (h : b.Running f address n sent) :
    (List.range (sent + b.sends)).map (packedWord f address n) =
      (List.range sent).map (packedWord f address n) ++
        (if b.master.dataValid && b.enqReady then [b.master.emitWord] else []) := by
  rcases h with ⟨ph, hphase, hwords, _⟩
  cases hsends : b.master.dataValid && b.enqReady with
  | false => simp [sends, hsends]
  | true =>
      have hoffers : ph.offers = true := by
        rw [← hphase.dataValid]
        exact (Bool.and_eq_true_iff.mp hsends).1
      rw [hphase.emitWord hoffers, hwords]
      simp [sends, hsends, List.range_succ]

/-- One cycle of the stream: a word is taken only if one is there. -/
theorem Flowing.step {taken : Nat} (h : b.Flowing f address n taken) (a : Access)
    (ha : a = .idle ∨ a = .data ∧ b.fifo ≠ []) :
    (b.step f a).Flowing f address n (taken + takes a) := by
  rcases h with ⟨hn, sent, hle, hfifo, hphase⟩
  have hcommand : ∀ value, a ≠ .command value := by
    intro value heq
    rcases ha with h | ⟨h, _⟩ <;> rw [heq] at h <;> cases h
  have htake : (if a = .data then b.fifo.tail else b.fifo) =
      ((List.range sent).map (packedWord f address n)).drop (taken + takes a) ∧
      taken + takes a ≤ sent := by
    rcases ha with rfl | ⟨rfl, hne⟩
    · exact ⟨hfifo, hle⟩
    · have hlt : taken < sent := by
        by_cases hlt : taken < sent
        · exact hlt
        · rw [hfifo] at hne
          simp at hne
          omega
      refine ⟨?_, hlt⟩
      rw [if_pos rfl, hfifo, List.tail_drop]
      rfl
  refine ⟨hn, ?_⟩
  rcases hphase with hrunning | hfinishing
  · refine ⟨sent + b.sends, by omega, ?_, hrunning.step hn a⟩
    rw [step_fifo, htake.1, hrunning.sent, List.drop_append_of_le_length (by simpa using htake.2)]
  · refine ⟨sent, htake.2, ?_, .inr (hfinishing.step hcommand)⟩
    rw [step_fifo, htake.1, hfinishing.rests.dataValid]
    simp

/-! ## Waiting -/

/-- A word is in the FIFO, or will be on offer within `k` cycles. -/
def Soon (f : Storage) (address : BitVec 24) (n k : Nat) (b : Block) : Prop :=
  b.fifo ≠ [] ∨ ∃ ph, b.InPhase f address n ph ∧ ph.rank < k

theorem Soon.step {k : Nat} (h : b.Soon f address n (k + 1)) :
    (b.step f .idle).Soon f address n k := by
  by_cases hempty : b.fifo = []
  · rcases h with hne | ⟨ph, hphase, hrank⟩
    · exact absurd hempty hne
    · have hready : b.enqReady = true := by
        rw [enqReady, hempty]
        rfl
      cases hoffers : ph.offers with
      | true =>
          refine .inl ?_
          rw [step_fifo, hphase.dataValid, hready, hoffers]
          simp
      | false =>
          have hlast : ¬ b.handsOverLast := by
            intro hl
            have hvalid := hphase.dataValid
            rw [hoffers, Master.dataValid, hl.1] at hvalid
            cases hvalid
          have hnext := Phase.rank_next n ph b.enqReady hphase.valid hoffers
          exact .inr ⟨_, hphase.step .idle hlast, by omega⟩
  · refine .inl ?_
    rw [step_fifo]
    simp [hempty]

theorem Soon.mono {k k' : Nat} (h : b.Soon f address n k) (hk : k ≤ k') :
    b.Soon f address n k' := by
  rcases h with hne | ⟨ph, hphase, hrank⟩
  · exact .inl hne
  · exact .inr ⟨ph, hphase, by omega⟩

theorem Flowing.soon {taken : Nat} (h : b.Flowing f address n taken) (hmore : taken < wordCount n) :
    b.Soon f address n 161 := by
  rcases h with ⟨_, sent, hle, hfifo, hphase⟩
  by_cases hlt : taken < sent
  · refine .inl ?_
    rw [hfifo]
    simpa using hlt
  · rcases hphase with ⟨ph, hphase, _, _⟩ | hfinishing
    · have hrank := ph.rank_le
      exact .inr ⟨ph, hphase, by omega⟩
    · have hall := hfinishing.all
      omega

theorem Flowing.errorReg {taken : Nat} (h : b.Flowing f address n taken) :
    b.master.errorReg = false := by
  rcases h.stream with ⟨sent, _, _, ⟨ph, hphase, _, _⟩ | hfinishing⟩
  · exact hphase.errorReg
  · exact hfinishing.rests.errorReg

theorem Flowing.head {taken : Nat} (h : b.Flowing f address n taken) (hne : b.fifo ≠ []) :
    b.fifo.headD 0 = packedWord f address n taken ∧ taken < wordCount n := by
  rcases h with ⟨hn, sent, hle, hfifo, hphase⟩
  have hlt : taken < sent := by
    rw [hfifo] at hne
    simpa using hne
  constructor
  · rw [hfifo, List.headD_eq_head?_getD, List.head?_drop]
    simp [hlt]
  · rcases hphase with ⟨ph, hphase, hwords, _⟩ | hfinishing
    · have hwords' := Phase.words_lt n ph hn hphase.valid
      omega
    · have hall := hfinishing.all
      omega

/-! ## Between transactions -/

/-- Nothing is left of the transactions so far. -/
structure Quiet (b : Block) : Prop where
  rests : b.Rests
  state : b.master.state = .sIdle
  doneReg : b.master.doneReg = false
  fifo : b.fifo = []

theorem quiet_reset : reset.Quiet := ⟨⟨rfl, rfl, rfl, .inl ⟨rfl, rfl⟩⟩, rfl, rfl, rfl⟩

theorem step_doneReg_idle (hidle : b.master.state = .sIdle) {a : Access}
    (hstart : b.startPulse a = false) : (b.step f a).master.doneReg = false := by
  simp [step_master, Master.step, hidle, Master.idle, masterIn, hstart]

theorem Quiet.step (h : b.Quiet) {a : Access} (ha : a ≠ .data) (hstart : b.startPulse a = false) :
    (b.step f a).Quiet where
  rests := h.rests.step_rests hstart
  state := h.rests.step_state hstart
  doneReg := step_doneReg_idle h.state hstart
  fifo := by
    rw [step_fifo, h.rests.dataValid, h.fifo, if_neg ha]
    rfl

theorem Quiet.start (h : b.Quiet) (hlen : b.lenReg ≠ 0) :
    (b.step f (.command 1)).Flowing f (b.addrReg.setWidth 24) b.lenReg.toNat 0 := by
  have hcontract : StartContract f b 1 :=
    .ofIdle h.rests h.state h.doneReg (by decide) hlen
  have hfifo : (b.step f (.command 1)).fifo = [] := by
    rw [step_fifo, h.rests.dataValid, h.fifo]
    rfl
  exact ⟨hcontract.sends.positive, 0, Nat.le_refl 0, hfifo,
    .inl ⟨_, hcontract.sends, rfl, hcontract.done [] trivial⟩⟩

/-- All words are taken: DONE is up, or the master is in `sDone` and it comes next. -/
theorem Flowing.finishing (h : b.Flowing f address n (wordCount n)) :
    b.Finishing n (wordCount n) ∧ b.fifo = [] := by
  rcases h with ⟨hn, sent, hle, hfifo, hphase⟩
  rcases hphase with ⟨ph, hphase, hwords, _⟩ | hfinishing
  · have hwords' := Phase.words_lt n ph hn hphase.valid
    omega
  · have hall := hfinishing.all
    subst hall
    refine ⟨hfinishing, ?_⟩
    rw [hfifo]
    simp

theorem Finishing.quiet {sent : Nat} (h : b.Finishing n sent) (hfifo : b.fifo = [])
    (hdone : b.doneSticky = true) : (b.step f .idle).Quiet := by
  have hidle : b.master.state = .sIdle := by
    rcases h.done with ⟨_, hd⟩ | ⟨hs, _⟩
    · rw [hd] at hdone
      cases hdone
    · exact hs
  have hstart : b.startPulse .idle = false := rfl
  refine ⟨h.rests.step_rests hstart, h.rests.step_state hstart,
    step_doneReg_idle hidle hstart, ?_⟩
  rw [step_fifo, h.rests.dataValid, hfifo]
  rfl

theorem Finishing.done_next {sent : Nat} (h : b.Finishing n sent) (hdone : b.doneSticky = false) :
    (b.step f .idle).doneSticky = true := by
  rcases h.done with ⟨hs, _⟩ | ⟨_, hd⟩
  · rcases h.rests.state with ⟨hidle, _⟩ | ⟨_, hreg⟩
    · rw [hidle] at hs
      cases hs
    · rw [step_doneSticky, hreg]
      rfl
  · rw [hd] at hdone
    cases hdone

end Block

end SecureBoot.Spi
