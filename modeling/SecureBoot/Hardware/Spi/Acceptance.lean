import SecureBoot.Hardware.Spi.Host

/-!
# Waiting with a COMMAND

The router presents one access at a time. While it holds a COMMAND no DATA read
gets through, so the words of the running transaction have to fit the FIFO.
-/

namespace SecureBoot.Spi

/-! ## Words still to come -/

/-- The words of the transaction that the master has not handed over, from its registers. -/
def Master.wordsLeft (m : Master) : Nat :=
  if m.busy then
    (m.bytesRemaining + m.wordByteCount + 3) / 4 + (if m.state = .sEmit then 1 else 0)
  else 0

namespace Block

variable {f : Storage} {b : Block} {address : BitVec 24} {n : Nat} {ph : Phase}

theorem wordsLeft_of_not_busy {m : Master} (h : m.busy = false) : m.wordsLeft = 0 := by
  rw [Master.wordsLeft, h]
  rfl

theorem InPhase.wordsLeft (h : b.InPhase f address n ph) :
    b.master.wordsLeft + ph.words = wordCount n := by
  rcases h with ⟨hpos, hvalid, ⟨w, hm⟩, _⟩
  rw [hm]
  cases ph with
  | sendSetup k => rfl
  | sendRise k => rfl
  | firstRead => rfl
  | readSetup m e =>
      show (n - m / 8 + m / 8 % 4 + 3) / 4 + 0 + m / 32 = (n + 3) / 4
      simp only [Phase.Valid] at hvalid
      omega
  | readWait m e =>
      show (n - m / 8 + m / 8 % 4 + 3) / 4 + 0 + m / 32 = (n + 3) / 4
      simp only [Phase.Valid] at hvalid
      omega
  | readRise m =>
      show (n - m / 8 + m / 8 % 4 + 3) / 4 + 0 + m / 32 = (n + 3) / 4
      simp only [Phase.Valid] at hvalid
      omega
  | emit m e =>
      show (n - m / 8 + 0 + 3) / 4 + 1 + (m / 8 - 1) / 4 = (n + 3) / 4
      simp only [Phase.Valid, Phase.WordEnd] at hvalid
      omega

/-! ## The COMMAND waits -/

theorem accepts_command_iff (value : Word) :
    b.accepts (.command value) = true ↔ b.master.busy = false := by
  have hcommand : b.accepts (.command value) = !b.master.busy := rfl
  rw [hcommand]
  simp

theorem step_command_fifo (value : Word) :
    (b.step f (.command value)).fifo.length = b.fifo.length + b.sends := by
  rw [step_fifo, if_neg (by simp), List.length_append, sends]
  split
  · rfl
  · rfl

/-- A cycle moves words from the master to the FIFO and loses none. -/
theorem InPhase.step_command (h : b.InPhase f address n ph) (value : Word)
    (hlast : ¬ b.handsOverLast) :
    (b.step f (.command value)).fifo.length + (b.step f (.command value)).master.wordsLeft =
      b.fifo.length + b.master.wordsLeft := by
  have hnot : ¬ (ph.Last n ∧ b.enqReady = true) := fun hl => hlast (h.handsOverLast_iff.mpr hl)
  have hwords := Phase.words_next n ph b.enqReady h.valid hnot
  have hbefore := h.wordsLeft
  have hafter := (h.step (.command value) hlast).wordsLeft
  rw [step_command_fifo, sends, h.dataValid]
  omega

theorem InPhase.wordsLeft_pos (h : b.InPhase f address n ph) : 0 < b.master.wordsLeft := by
  have hlt := Phase.words_lt n ph h.positive h.valid
  have hleft := h.wordsLeft
  omega

theorem InPhase.wordsLeft_last (h : b.InPhase f address n ph) (hlast : b.handsOverLast) :
    b.master.wordsLeft = 1 := by
  have hwords := Phase.words_last n ph h.positive (h.handsOverLast_iff.mp hlast).1
  have hleft := h.wordsLeft
  omega

/-! ### Too many words -/

/-- The words of the transaction do not fit. -/
def Jammed (f : Storage) (b : Block) : Prop :=
  ∃ address n ph, b.InPhase f address n ph ∧ fifoDepth < b.fifo.length + b.master.wordsLeft

theorem Jammed.step (h : Jammed f b) (value : Word) : Jammed f (b.step f (.command value)) := by
  rcases h with ⟨address, n, ph, hphase, hmany⟩
  have hlast : ¬ b.handsOverLast := by
    intro hlast
    have hone := hphase.wordsLeft_last hlast
    have hroom : b.fifo.length < fifoDepth := of_decide_eq_true hlast.2.1
    omega
  exact ⟨address, n, _, hphase.step _ hlast, by rw [hphase.step_command value hlast]; exact hmany⟩

theorem Jammed.never_accepts (h : Jammed f b) (value : Word) :
    ¬ ∃ k, (run f b (List.replicate k (.command value))).accepts (.command value) = true := by
  rintro ⟨k, hk⟩
  rcases Clocked.run_replicate_invariant (fun _ h' => h'.step value) k b h with
    ⟨_, _, _, hphase, _⟩
  rw [accepts_command_iff] at hk
  have hbusy := hphase.busy
  rw [run] at hk
  rw [hk] at hbusy
  cases hbusy

/-! ### Room for all of them -/

/-- The block is free, or will be when `r` has come down to zero: word by word, and within a word
by the rank of the phase. -/
def Draining (f : Storage) (r : Nat) (b : Block) : Prop :=
  b.master.busy = false ∨ ∃ address n ph, b.InPhase f address n ph ∧
    b.fifo.length + b.master.wordsLeft ≤ fifoDepth ∧ r = 161 * b.master.wordsLeft + ph.rank

theorem Draining.step {r : Nat} (h : Draining f r b) (value : Word) :
    b.master.busy = false ∨ ∃ r', r' < r ∧ Draining f r' (b.step f (.command value)) := by
  rcases h with hfree | ⟨address, n, ph, hphase, hfits, hr⟩
  · exact .inl hfree
  · have hpos := hphase.wordsLeft_pos
    refine .inr ?_
    by_cases hlast : b.handsOverLast
    · exact ⟨0, by omega, .inl (hphase.finish _ hlast).1.not_busy⟩
    · have hnext := hphase.step (.command value) hlast
      have hsum := hphase.step_command value hlast
      have hnot : ¬ (ph.Last n ∧ b.enqReady = true) := fun hl =>
        hlast (hphase.handsOverLast_iff.mpr hl)
      have hwords := Phase.words_next n ph b.enqReady hphase.valid hnot
      have hbefore := hphase.wordsLeft
      have hafter := hnext.wordsLeft
      refine ⟨_, ?_, .inr ⟨address, n, _, hnext, by omega, rfl⟩⟩
      cases hoffers : ph.offers with
      | true =>
          have hready : b.enqReady = true := by
            refine decide_eq_true ?_
            omega
          have hrank := (ph.next n true).rank_le
          rw [hready] at hwords hafter ⊢
          rw [hoffers] at hwords
          simp only [Bool.and_self, if_true] at hwords
          omega
      | false =>
          have hrank := Phase.rank_next n ph b.enqReady hphase.valid hoffers
          rw [hoffers] at hwords
          simp only [Bool.false_and, Bool.false_eq_true, if_false] at hwords
          omega

theorem Draining.accepts {r : Nat} (h : Draining f r b) (value : Word) :
    ∃ k, (run f b (List.replicate k (.command value))).accepts (.command value) = true := by
  rcases Clocked.run_reaches (fun _ _ h' => h'.step value) r b h with ⟨k, hk⟩
  exact ⟨k, (accepts_command_iff value).mpr hk⟩

/-! ### Every reachable state -/

theorem step_fifo_le (hb : b.fifo.length ≤ fifoDepth) (a : Access) :
    (b.step f a).fifo.length ≤ fifoDepth := by
  have htake : (if a = .data then b.fifo.tail else b.fifo).length ≤ b.fifo.length := by
    split
    · rw [List.length_tail]
      omega
    · exact Nat.le_refl _
  rw [step_fifo, List.length_append]
  by_cases hput : (b.master.dataValid && b.enqReady) = true
  · have hroom : b.fifo.length < fifoDepth := of_decide_eq_true (Bool.and_eq_true_iff.mp hput).2
    rw [if_pos hput, List.length_singleton]
    omega
  · rw [if_neg hput, List.length_nil]
    omega

theorem run_fifo_le (accesses : List Access) : (run f reset accesses).fifo.length ≤ fifoDepth :=
  Clocked.run_invariant (I := fun b => b.fifo.length ≤ fifoDepth) (fun _ a h => step_fifo_le h a)
    reset (Nat.zero_le _) accesses

theorem Linked.accepts_iff (h : Linked f b) (hfifo : b.fifo.length ≤ fifoDepth)
    (value : Word) :
    (∃ k, (run f b (List.replicate k (.command value))).accepts (.command value) = true) ↔
      b.fifo.length + b.master.wordsLeft ≤ fifoDepth := by
  rcases h with hrests | ⟨address, n, ph, hphase⟩
  · rw [wordsLeft_of_not_busy hrests.not_busy]
    exact ⟨fun _ => hfifo, fun _ => ⟨0, (accepts_command_iff value).mpr hrests.not_busy⟩⟩
  · constructor
    · intro haccepted
      by_cases hfits : b.fifo.length + b.master.wordsLeft ≤ fifoDepth
      · exact hfits
      · have hjammed : Jammed f b := ⟨address, n, ph, hphase, by omega⟩
        exact absurd haccepted (hjammed.never_accepts value)
    · intro hfits
      have hdraining : Draining f _ b := .inr ⟨address, n, ph, hphase, hfits, rfl⟩
      exact hdraining.accepts value

/-- A COMMAND that waits is accepted some time, with nothing but the clock, exactly when the words
that are still to come find room in the FIFO. -/
theorem command_accepted_iff (f : Storage) (accesses : List Access) (value : Word) :
    (∃ k, (run f (run f reset accesses) (List.replicate k (.command value))).accepts
        (.command value) = true) ↔
      (run f reset accesses).fifo.length + (run f reset accesses).master.wordsLeft ≤ fifoDepth :=
  (linked_run accesses).accepts_iff (run_fifo_le accesses) value

/-- Seventeen words and a second COMMAND right behind the first. -/
theorem command_jams :
    ¬ ∃ k, (run blankStorage (run blankStorage reset [.len 68, .command 1])
        (List.replicate k (.command 1))).accepts (.command 1) = true := by
  have hlinked : Linked blankStorage (run blankStorage reset [.len 68, .command 1]) :=
    linked_run _
  rw [hlinked.accepts_iff (run_fifo_le _)]
  decide

end Block

end SecureBoot.Spi
