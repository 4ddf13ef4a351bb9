import SecureBoot.Hardware.Spi.Interrupted

/-!
# A transaction behind words that nobody took

As long as they fit the FIFO, the words that were left delay every later transaction and stop none:
each delivers them first and leaves as many of its own. So software sees the flash shifted by the
words left.
-/

namespace SecureBoot.Spi

open Words

namespace Block

variable {f : Storage} {b : Block} {ws : List Word}

/-! ## Waiting -/

theorem Linked.errorReg (h : Linked f b) : b.master.errorReg = false := by
  rcases h with hrests | ⟨address, n, ph, hphase⟩
  · exact hrests.errorReg
  · exact hphase.errorReg

theorem Pending.soon (h : Pending f b ws) (hne : ws ≠ []) :
    ∃ address n, b.Soon f address n 161 := by
  rcases h with ⟨later, howes, hws⟩
  by_cases hempty : b.fifo = []
  · rcases howes with ⟨_, hnil⟩ | ⟨address, n, ph, hphase, _⟩
    · rw [hempty, hnil] at hws
      exact absurd hws hne
    · exact ⟨address, n, .inr ⟨ph, hphase, Nat.lt_succ_of_le ph.rank_le⟩⟩
  · exact ⟨0, 0, .inl hempty⟩

/-- DONE is up within `k` cycles. -/
def DoneSoon (f : Storage) (k : Nat) (b : Block) : Prop :=
  b.doneSticky = true ∨ (b.master.doneReg = true ∧ 1 ≤ k) ∨
    ∃ r, b.master.busy = true ∧ Draining f r b ∧ r + 2 ≤ k

theorem Completes.doneSoon (h : Completes f b) (hpending : Pending f b ws)
    (hroom : ws.length ≤ fifoDepth) : DoneSoon f (drainCycles + 2) b := by
  rcases h with hsticky | hreg | ⟨address, n, ph, hphase⟩
  · exact .inl hsticky
  · exact .inr (.inl ⟨hreg, Nat.succ_pos _⟩)
  · rcases hpending.draining hroom with ⟨r, hr, hdraining⟩
    exact .inr (.inr ⟨r, hphase.busy, hdraining, Nat.add_le_add_right hr 2⟩)

/-- A busy block does not hear a COMMAND. -/
theorem step_command_of_busy (h : b.master.busy = true) (value : Word) :
    b.step f (.command value) = b.step f .idle := by
  have hfired := not_fired_of_busy h (.command value)
  have hstart : b.startPulse (.command value) = b.startPulse .idle :=
    startPulse_of_not_fired hfired
  have hclear : b.clearsDone (.command value) = b.clearsDone .idle :=
    clearsDone_of_not_fired hfired
  have hin : b.masterIn (.command value) = b.masterIn .idle := by
    rw [masterIn, hstart]
    rfl
  unfold Block.step
  rw [hclear, hin]
  rfl

theorem DoneSoon.step {k : Nat} (h : DoneSoon f (k + 1) b) : DoneSoon f k (b.step f .idle) := by
  rcases h with hsticky | ⟨hreg, _⟩ | ⟨r, hbusy, hdraining, hr⟩
  · refine .inl ?_
    rw [step_doneSticky, hsticky]
    simp [clearsDone, fired]
  · refine .inl ?_
    rw [step_doneSticky, hreg]
    rfl
  · have hphase : ∃ address n ph, b.InPhase f address n ph := by
      rcases hdraining with hfree | ⟨address, n, ph, hphase, _⟩
      · rw [hbusy] at hfree
        cases hfree
      · exact ⟨address, n, ph, hphase⟩
    rcases hphase with ⟨address, n, ph, hphase⟩
    rcases hdraining.step 0 with hfree | ⟨r', hlt, hnext⟩
    · rw [hbusy] at hfree
      cases hfree
    · rw [step_command_of_busy hbusy] at hnext
      by_cases hlast : b.handsOverLast
      · exact .inr (.inl ⟨finish_doneReg hphase .idle hlast, by omega⟩)
      · exact .inr (.inr ⟨r', (hphase.step .idle hlast).busy, hnext, by omega⟩)

theorem DoneSoon.now (h : DoneSoon f 0 b) : b.doneSticky = true := by
  rcases h with hsticky | ⟨_, hone⟩ | ⟨r, _, _, hr⟩
  · exact hsticky
  · omega
  · omega

theorem DoneSoon.mono {k k' : Nat} (h : DoneSoon f k b) (hk : k ≤ k') : DoneSoon f k' b := by
  rcases h with hsticky | ⟨hreg, hone⟩ | ⟨r, hbusy, hdraining, hr⟩
  · exact .inl hsticky
  · exact .inr (.inl ⟨hreg, by omega⟩)
  · exact .inr (.inr ⟨r, hbusy, hdraining, by omega⟩)

end Block

namespace Host

variable {f : Storage} {q : Host} {ws : List Word} (gap : Nat → Nat) (patience : Nat)

/-! ## Polling -/

theorem streams_arrival (h : q.block.Streams f ws) : (arrival f gap q).Streams f ws :=
  wait_invariant (fun _ hb => hb.idle) (gap q.count) h

theorem streams_dataReady (budget : Nat) (hq : q.hung = false) (h : q.block.Streams f ws)
    (hne : (arrival f gap q).fifo ≠ []) :
    ∃ q', (port f gap patience).Answers SpiPort.dataReady SpiPort.dataWait budget q q' ∧
      q'.hung = false ∧ q'.block.Streams f ws ∧ q'.block.fifo ≠ [] := by
  have harrival := streams_arrival gap h
  have hread := read_status f gap patience hq
  have hready : SpiPort.dataReady ((port f gap patience).read 0x0C q).1 = true := by
    rw [hread, (dataReady_status _ harrival.pending.linked.errorReg).1]
    simp [hne]
  refine ⟨_, .ready budget q hready, ?_⟩
  rw [hread]
  refine ⟨rfl, harrival.idle, ?_⟩
  show ((arrival f gap q).step f .idle).fifo ≠ []
  rw [Block.step_fifo]
  simp [hne]

/-- DATA_READY comes within `k` polls. -/
theorem streams_polls {address : BitVec 24} {n : Nat} (k : Nat) (q : Host) (hq : q.hung = false)
    (h : q.block.Streams f ws) (hsoon : q.block.Soon f address n k) :
    ∃ q', (port f gap patience).Answers SpiPort.dataReady SpiPort.dataWait k q q' ∧
      q'.hung = false ∧ q'.block.Streams f ws ∧ q'.block.fifo ≠ [] := by
  induction k generalizing q with
  | zero =>
      rcases soon_arrival f gap hsoon with hne | ⟨ph, _, hrank⟩
      · exact streams_dataReady gap patience 0 hq h hne
      · exact absurd hrank (Nat.not_lt_zero _)
  | succ k ih =>
      have harrival := streams_arrival gap h
      by_cases hempty : (arrival f gap q).fifo = []
      · have hread := read_status f gap patience hq
        have hwait : SpiPort.dataWait ((port f gap patience).read 0x0C q).1 = true := by
          rw [hread, (dataReady_status _ harrival.pending.linked.errorReg).2]
          simp [hempty]
        rcases ih ⟨(arrival f gap q).step f .idle, q.count + 1, false⟩ rfl harrival.idle
          (soon_arrival f gap hsoon).step with ⟨q', hrest, hq'⟩
        refine ⟨q', .wait k q q' hwait ?_, hq'⟩
        rw [hread]
        exact hrest
      · exact streams_dataReady gap patience (k + 1) hq h hempty

/-- The next word. -/
theorem streams_word {w : Word} (budget : Nat) (hbudget : 161 ≤ budget) (hq : q.hung = false)
    (h : q.block.Streams f (w :: ws)) :
    ∃ q₁ q₂, (port f gap patience).Answers SpiPort.dataReady SpiPort.dataWait budget q q₁ ∧
      (port f gap patience).read 0x10 q₁ = (w, q₂) ∧ q₂.hung = false ∧ q₂.block.Streams f ws := by
  rcases h.pending.soon (List.cons_ne_nil w ws) with ⟨address, n, hsoon⟩
  rcases streams_polls gap patience budget q hq h (hsoon.mono hbudget) with
    ⟨q₁, hpoll, hq₁, h₁, hne⟩
  have hne' := nonempty_arrival f gap hne
  rcases (streams_arrival gap h₁).take hne' with ⟨hhead, hnext⟩
  refine ⟨q₁, ⟨(arrival f gap q₁).step f .data, q₁.count + 1, false⟩, hpoll, ?_, rfl, hnext⟩
  rw [read_data f gap patience hq₁ hne', hhead]

/-- The data phase takes what is pending, whichever transaction it is from. -/
theorem streams_delivers (budget : Nat) (hbudget : 161 ≤ budget) (n : Nat) (q : Host)
    (hq : q.hung = false) (h : q.block.Streams f ws) (hn : wordCount n ≤ ws.length) :
    ∃ q', (port f gap patience).Delivers budget n q ((ws.flatMap leBytes).take n) q' ∧
      q'.hung = false ∧ q'.block.Streams f (ws.drop (wordCount n)) := by
  induction ws generalizing n q with
  | nil =>
      have hzero : n = 0 := by
        rw [wordCount, List.length_nil] at hn
        omega
      subst hzero
      exact ⟨q, .nil q, hq, h⟩
  | cons w ws ih =>
      cases n with
      | zero => exact ⟨q, .nil q, hq, h⟩
      | succ n =>
          have hcount : wordCount (n + 1) = wordCount (n + 1 - 4) + 1 := by
            unfold wordCount
            omega
          rcases streams_word gap patience budget hbudget hq h with
            ⟨q₁, q₂, hpoll, hread, hq₂, h₂⟩
          rcases ih (n + 1 - 4) q₂ hq₂ h₂ (by rw [List.length_cons] at hn; omega) with
            ⟨q', hrest, hq', h'⟩
          refine ⟨q', ?_, hq', ?_⟩
          · have hword := SpiPort.Delivers.word (n + 1) q q₁ q' _ (Nat.succ_pos n) hpoll
              (by rw [hread]; exact hrest)
            rw [hread] at hword
            rw [List.flatMap_cons, List.take_append, leBytes_length]
            exact hword
          · rw [hcount, List.drop_succ_cons]
            exact h'

/-- The same without the end of the transaction. -/
theorem streams_takes (budget : Nat) (hbudget : 161 ≤ budget) (k : Nat) (q : Host)
    (hq : q.hung = false) (h : q.block.Streams f ws) (hk : k ≤ ws.length) :
    ∃ q', (port f gap patience).Takes budget k q q' ∧ q'.hung = false ∧
      q'.block.Streams f (ws.drop k) := by
  induction k generalizing ws q with
  | zero => exact ⟨q, .zero q, hq, h⟩
  | succ k ih =>
      cases ws with
      | nil => cases hk
      | cons w ws =>
          rcases streams_word gap patience budget hbudget hq h with
            ⟨q₁, q₂, hpoll, hread, hq₂, h₂⟩
          rcases ih q₂ hq₂ h₂ (Nat.le_of_succ_le_succ hk) with ⟨q', hrest, hq', h'⟩
          refine ⟨q', .succ k q q₁ q' hpoll ?_, hq', h'⟩
          rw [hread]
          exact hrest

theorem streams_doneReady (budget : Nat) (hq : q.hung = false) (h : q.block.Streams f ws)
    (hdone : (arrival f gap q).doneSticky = true) :
    ∃ q', (port f gap patience).Answers SpiPort.doneReady SpiPort.doneWait budget q q' ∧
      q'.Lags f ws := by
  have hnext := (streams_arrival gap h).idle
  have hread := read_status f gap patience hq
  have hready : SpiPort.doneReady ((port f gap patience).read 0x0C q).1 = true := by
    rw [hread, (doneReady_status _).1, hdone]
  refine ⟨_, .ready budget q hready, ?_⟩
  rw [hread]
  exact ⟨rfl, hnext.bounded, hnext.pending⟩

/-- DONE comes once the words left have found room, within `k` polls. -/
theorem streams_done (k : Nat) (q : Host) (hq : q.hung = false) (h : q.block.Streams f ws)
    (hdone : Block.DoneSoon f k q.block) :
    ∃ q', (port f gap patience).Answers SpiPort.doneReady SpiPort.doneWait k q q' ∧
      q'.Lags f ws := by
  have hsoon : ∀ k q, Block.DoneSoon f k q.block → Block.DoneSoon f k (arrival f gap q) :=
    fun k q hdone => wait_invariant (fun _ hb => (hb.mono (Nat.le_succ k)).step) (gap q.count) hdone
  induction k generalizing q with
  | zero => exact streams_doneReady gap patience 0 hq h (hsoon 0 q hdone).now
  | succ k ih =>
      cases hsticky : (arrival f gap q).doneSticky with
      | true => exact streams_doneReady gap patience (k + 1) hq h hsticky
      | false =>
          have hread := read_status f gap patience hq
          have hwait : SpiPort.doneWait ((port f gap patience).read 0x0C q).1 = true := by
            rw [hread, (doneReady_status _).2, hsticky]
            rfl
          rcases ih ⟨(arrival f gap q).step f .idle, q.count + 1, false⟩ rfl
            (streams_arrival gap h).idle (hsoon (k + 1) q hdone).step with ⟨q', hrest, hq'⟩
          refine ⟨q', .wait k q q' hwait ?_, hq'⟩
          rw [hread]
          exact hrest

variable {patience} in
/-- A transaction behind `ws` delivers `ws` first, and leaves as many words of its own. -/
theorem Lags.serves (h : q.Lags f ws) (hpatience : Block.drainCycles ≤ patience)
    (hroom : ws.length ≤ Block.fifoDepth) (budget : Nat) (hbudget : Block.drainCycles + 2 ≤ budget)
    (offset total : Word) (htotal : total ≠ 0) :
    ∃ q', (port f gap patience).Serves budget offset total q
        (((ws ++ pack f (offset.setWidth 24) total.toNat).flatMap leBytes).take total.toNat) q' ∧
      q'.Lags f ((ws ++ pack f (offset.setWidth 24) total.toNat).drop (wordCount total.toNat)) := by
  have hlength := pack_length f (offset.setWidth 24) total.toNat
  rcases h.start gap hpatience hroom offset total htotal with ⟨hq, hstream⟩
  rcases streams_delivers gap patience budget
    (Nat.le_trans (by decide) hbudget) total.toNat _ hq hstream
    (by rw [List.length_append]; omega) with ⟨q₁, hdata, hq₁, h₁⟩
  have hleft : ((ws ++ pack f (offset.setWidth 24) total.toNat).drop
      (wordCount total.toNat)).length ≤ Block.fifoDepth := by
    rw [List.length_drop, List.length_append]
    omega
  have hdone := (h₁.completes.doneSoon h₁.pending hleft).mono hbudget
  rcases streams_done gap patience budget q₁ hq₁ h₁ hdone with ⟨q', hpoll, hq'⟩
  exact ⟨q', ⟨q₁, hdata, hpoll⟩, hq'⟩

end Host

/-! ## The flash as software sees it -/

/-- The words left, and behind them the flash from its first byte on. -/
def shifted (left : List Word) (flash : Memory) : Memory :=
  Memory.write (fun a => flash (a - 4 * left.length)) 0 (left.flatMap leBytes)

theorem shifted_nil (flash : Memory) : shifted [] flash = flash := by
  funext a
  rw [shifted, List.flatMap_nil, Memory.write_nil]
  rfl

theorem shifted_left (left : List Word) (flash : Memory) :
    (shifted left flash).read 0 (4 * left.length) = left.flatMap leBytes :=
  Memory.read_write_same_of_length _ _ _ _ (flatMap_leBytes_length left)

theorem shifted_behind (left : List Word) (flash : Memory) (a n : Nat) :
    (shifted left flash).read (a + 4 * left.length) n = flash.read a n := by
  apply List.map_congr_left
  intro i _
  rw [shifted, Memory.write_apply_of_outside _ _ _ _ (by rw [flatMap_leBytes_length]; omega)]
  congr 1
  omega

theorem flatMap_leBytes_leWords (bs : List Byte) (h : bs.length % 4 = 0) :
    (leWords bs).flatMap leBytes = bs := by
  induction bs using leWords.induct with
  | case1 b0 b1 b2 b3 rest ih =>
      simp only [List.length_cons] at h
      rw [leWords, List.flatMap_cons, leBytes_leWord, ih (by omega)]
      rfl
  | case2 bs hshort =>
      rw [eq_nil_of_incomplete h hshort]
      rfl

theorem flatMap_leBytes_drop (ws : List Word) (k : Nat) :
    (ws.drop k).flatMap leBytes = (ws.flatMap leBytes).drop (4 * k) := by
  induction k generalizing ws with
  | zero => rfl
  | succ k ih =>
      cases ws with
      | nil => simp
      | cons w ws =>
          rw [List.drop_succ_cons, ih, List.flatMap_cons, Nat.mul_succ, Nat.add_comm,
            ← List.drop_drop]
          rfl

theorem pack_bytes (f : Storage) (address : BitVec 24) (n : Nat) :
    (pack f address n).flatMap leBytes =
      f.memory.read address.toNat n ++ List.replicate (4 * wordCount n - n) 0 := by
  rw [pack, flatMap_leBytes_leWords]
  · rfl
  · rw [List.length_append, List.length_map, List.length_range, List.length_replicate, wordCount]
    omega

variable {f : Storage} {left ws : List Word} {address : BitVec 24}

/-- Words that continue the shifted flash, and a transaction behind them. -/
theorem shifted_stream (n : Nat)
    (h : ws.flatMap leBytes = (shifted left f.memory).read address.toNat (4 * left.length)) :
    (ws ++ pack f address n).flatMap leBytes =
      (shifted left f.memory).read address.toNat (4 * left.length + n) ++
        List.replicate (4 * wordCount n - n) 0 := by
  rw [List.flatMap_append, h, pack_bytes, ← List.append_assoc, Memory.read_add, shifted_behind]

namespace Host

variable {q : Host} (gap : Nat → Nat) {patience : Nat}

/-- What is pending continues the shifted flash at `o`. -/
def Continues (f : Storage) (left : List Word) (o : Nat) (q : Host) : Prop :=
  ∃ ws, q.Lags f ws ∧ ws.flatMap leBytes = (shifted left f.memory).read o (4 * left.length)

theorem Lags.continues (h : q.Lags f left) : q.Continues f left 0 :=
  ⟨left, h, (shifted_left left f.memory).symm⟩

theorem continues_length {o : Nat}
    (h : ws.flatMap leBytes = (shifted left f.memory).read o (4 * left.length)) :
    ws.length = left.length := by
  have hlength := congrArg List.length h
  rw [flatMap_leBytes_length, Memory.read_length] at hlength
  omega

/-- A transaction where the last one ended reads the shifted flash. -/
theorem Continues.serves {o : Nat} (h : q.Continues f left o)
    (hpatience : Block.drainCycles ≤ patience) (hroom : left.length ≤ Block.fifoDepth)
    (budget : Nat) (hbudget : Block.drainCycles + 2 ≤ budget) (offset total : Word)
    (hoffset : (offset.setWidth 24).toNat = o) (htotal : total ≠ 0) :
    ∃ q', (port f gap patience).Serves budget offset total q
        ((shifted left f.memory).read o total.toNat) q' ∧
      (total.toNat % 4 = 0 → q'.Continues f left (o + total.toNat)) := by
  rcases h with ⟨ws, hlags, hws⟩
  have hlength := continues_length hws
  rcases hlags.serves gap hpatience (by omega) budget hbudget offset total htotal with
    ⟨q', hserves, hlags'⟩
  subst hoffset
  have hstream := shifted_stream total.toNat hws
  refine ⟨q', ?_, fun hwhole => ⟨_, hlags', ?_⟩⟩
  · rw [hstream, List.take_append_of_le_length (by rw [Memory.read_length]; omega),
      Memory.take_read, Nat.min_eq_left (by omega)] at hserves
    exact hserves
  · have hcount : 4 * wordCount total.toNat = total.toNat := by
      unfold wordCount
      omega
    rw [flatMap_leBytes_drop, hstream, hcount, Nat.sub_self, List.replicate_zero, List.append_nil,
      Nat.add_comm, Memory.read_add]
    exact List.drop_left' (Memory.read_length _ _ _)

end Host

end SecureBoot.Spi
