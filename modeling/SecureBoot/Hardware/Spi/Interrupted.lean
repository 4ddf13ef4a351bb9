import SecureBoot.Hardware.Spi.Acceptance
import SecureBoot.Hardware.Spi.Stream

/-!
# A transaction that nobody finishes

Software that stops in the middle of a transaction and starts another one. The words that it has
not taken are all that counts: they fit the FIFO, and the next transaction goes behind them, or the
router never gets its COMMAND through.
-/

namespace SecureBoot

/-! ## Part of the data phase -/

namespace SpiPort

variable {σ : Type} (port : SpiPort σ)

/-- `k` words are polled for and read. -/
inductive Takes (budget : Nat) : Nat → σ → σ → Prop
  | zero (q : σ) : Takes budget 0 q q
  | succ (k : Nat) (q q₁ q' : σ) (hpoll : port.Answers dataReady dataWait budget q q₁)
      (hrest : Takes budget k (port.read 0x10 q₁).2 q') : Takes budget (k + 1) q q'

variable {τ : Type} {inner : SpiPort σ} {outer : SpiPort τ} {put : σ → τ}

theorem Embeds.start (h : Embeds inner outer put) (offset total : Word) (q : σ) :
    outer.start offset total (put q) = put (inner.start offset total q) := by
  rw [SpiPort.start, h.write _ _ _ (by decide), h.write _ _ _ (by decide),
    h.write _ _ _ (by decide), h.write _ _ _ (by decide)]
  rfl

theorem Takes.lift (h : Embeds inner outer put) {budget k : Nat} {q q' : σ}
    (ht : inner.Takes budget k q q') : outer.Takes budget k (put q) (put q') := by
  induction ht with
  | zero q => exact .zero (put q)
  | succ k q q₁ q' hpoll _ ih =>
      apply Takes.succ k (put q) (put q₁) (put q') (hpoll.lift h)
      rw [h.read 0x10 q₁ (by decide)]
      exact ih

end SpiPort

namespace Spi

theorem pack_length (f : Storage) (address : BitVec 24) (n : Nat) :
    (pack f address n).length = wordCount n := by
  rw [pack_eq, List.length_map, List.length_range]

namespace Block

variable {f : Storage} {b : Block} {ws : List Word}

/-! ## Words in order -/

/-- The words that DATA delivers next, in order: those in the FIFO, then those still to come. -/
def Pending (f : Storage) (b : Block) (ws : List Word) : Prop :=
  ∃ later, Owes f b later ∧ ws = b.fifo ++ later

theorem Owes.linked (h : Owes f b ws) : Linked f b := by
  rcases h with ⟨hrests, _⟩ | ⟨address, n, ph, hphase, _⟩
  · exact .inl hrests
  · exact .inr ⟨address, n, ph, hphase⟩

theorem Owes.wordsLeft (h : Owes f b ws) : b.master.wordsLeft = ws.length := by
  rcases h with ⟨hrests, hnil⟩ | ⟨address, n, ph, hphase, hdrop⟩
  · rw [wordsLeft_of_not_busy hrests.not_busy, hnil]
    rfl
  · have hleft := hphase.wordsLeft
    rw [hdrop, List.length_drop, pack_length]
    omega

theorem Pending.linked (h : Pending f b ws) : Linked f b := by
  rcases h with ⟨later, howes, _⟩
  exact howes.linked

theorem Pending.length (h : Pending f b ws) :
    b.fifo.length + b.master.wordsLeft = ws.length := by
  rcases h with ⟨later, howes, hws⟩
  rw [howes.wordsLeft, hws, List.length_append]

/-- What is read in a cycle is the first word, what is begun goes behind the last. -/
theorem Pending.step (h : Pending f b ws) (a : Access) :
    ∃ ws', Pending f (b.step f a) ws' ∧
      ws ++ delivered f (b.begun a).toList = b.dataRead a ++ ws' := by
  rcases h with ⟨later, howes, hws⟩
  rcases howes.step a with ⟨later', howes', hsplit⟩
  refine ⟨_, ⟨later', howes', rfl⟩, ?_⟩
  rw [hws]
  exact hsplit

theorem dataRead_of_ne {a : Access} (ha : a ≠ .data) : b.dataRead a = [] := by
  cases a with
  | data => exact absurd rfl ha
  | idle => rfl
  | addr value => rfl
  | len value => rfl
  | command value => rfl

theorem begun_of_not_started {a : Access} (hstart : b.startPulse a = false) : b.begun a = none := by
  rw [begun, hstart]
  simp

theorem Pending.keep (h : Pending f b ws) {a : Access} (ha : a ≠ .data)
    (hstart : b.startPulse a = false) : Pending f (b.step f a) ws := by
  rcases h.step a with ⟨ws', hws', hsplit⟩
  rw [dataRead_of_ne ha, begun_of_not_started hstart] at hsplit
  have hsame : ws = ws' := by simpa [delivered] using hsplit
  rwa [hsame]

theorem Pending.take {w : Word} (h : Pending f b (w :: ws)) (hne : b.fifo ≠ []) :
    b.fifo.headD 0 = w ∧ Pending f (b.step f .data) ws := by
  rcases h.step .data with ⟨ws', hws', hsplit⟩
  rcases List.exists_cons_of_ne_nil hne with ⟨v, rest, hfifo⟩
  have hread : b.dataRead .data = [v] := by
    rw [dataRead, hfifo]
    rfl
  have hbegun : b.begun .data = none := begun_of_not_started rfl
  rw [hread, hbegun] at hsplit
  have hsame : w :: ws = v :: ws' := by simpa [delivered] using hsplit
  cases hsame
  refine ⟨?_, hws'⟩
  rw [hfifo]
  rfl

/-- START on an idle master sends the transaction behind what is pending. -/
theorem Pending.start (h : Pending f b ws) (hrests : b.Rests) (hidle : b.master.state = .sIdle)
    (hlen : b.lenReg ≠ 0) :
    Pending f (b.step f (.command 1)) (ws ++ pack f (b.addrReg.setWidth 24) b.lenReg.toNat) := by
  have hpulse : b.startPulse (.command 1) = true := by
    simp [startPulse, fired, hrests.not_busy]
  have hbegun : b.begun (.command 1) = some (b.addrReg.setWidth 24, b.lenReg.toNat) :=
    if_pos ⟨hidle, hpulse, hlen⟩
  rcases h.step (.command 1) with ⟨ws', hws', hsplit⟩
  rw [dataRead_of_ne Access.noConfusion, hbegun] at hsplit
  have hsame : ws ++ pack f (b.addrReg.setWidth 24) b.lenReg.toNat = ws' := by
    simpa [delivered] using hsplit
  rwa [hsame]

theorem Linked.rests (h : Linked f b) (hfree : b.master.busy = false) : b.Rests := by
  rcases h with hrests | ⟨address, n, ph, hphase⟩
  · exact hrests
  · have hbusy := hphase.busy
    rw [hfree] at hbusy
    cases hbusy

/-! ## The next START -/

/-- Cycles in which a FIFO full of words leaves the master. -/
def drainCycles : Nat := 161 * fifoDepth + 160

theorem Pending.draining (h : Pending f b ws) (hroom : ws.length ≤ fifoDepth) :
    ∃ r, r ≤ drainCycles ∧ Draining f r b := by
  have hlength := h.length
  rcases h.linked with hrests | ⟨address, n, ph, hphase⟩
  · exact ⟨0, Nat.zero_le _, .inl hrests.not_busy⟩
  · have hrank := ph.rank_le
    refine ⟨_, ?_, .inr ⟨address, n, ph, hphase, by omega, rfl⟩⟩
    unfold drainCycles
    omega

/-- DONE is up, rises in the next cycle, or waits for a transaction. -/
def Completes (f : Storage) (b : Block) : Prop :=
  b.doneSticky = true ∨ b.master.doneReg = true ∨ ∃ address n ph, b.InPhase f address n ph

theorem finish_doneReg {address : BitVec 24} {n : Nat} {ph : Phase}
    (h : b.InPhase f address n ph) (a : Access) (hlast : b.handsOverLast) :
    (b.step f a).master.doneReg = true := by
  rcases h.finish a hlast with ⟨hrests, hdone⟩
  rcases hrests.state with ⟨hidle, _⟩ | ⟨_, hreg⟩
  · rw [hdone] at hidle
    cases hidle
  · exact hreg

theorem Completes.step (h : Completes f b) {a : Access} (ha : ∀ value, a ≠ .command value) :
    Completes f (b.step f a) := by
  rcases h with hsticky | hreg | ⟨address, n, ph, hphase⟩
  · refine .inl ?_
    rw [step_doneSticky, clearsDone_of_not_fired (not_fired_of_ne ha), hsticky]
    simp
  · refine .inl ?_
    rw [step_doneSticky, hreg]
    rfl
  · by_cases hlast : b.handsOverLast
    · exact .inr (.inl (finish_doneReg hphase a hlast))
    · exact .inr (.inr ⟨address, n, _, hphase.step a hlast⟩)

/-! ## Between the registers -/

/-- What is pending, and the registers of the next transaction. -/
structure Holds (f : Storage) (ws : List Word) (offset total : Word) (b : Block) : Prop where
  bounded : b.fifo.length ≤ fifoDepth
  pending : Pending f b ws
  addrReg : b.addrReg = offset
  lenReg : b.lenReg = total

variable {offset total : Word}

theorem Holds.idle (h : b.Holds f ws offset total) : (b.step f .idle).Holds f ws offset total :=
  ⟨step_fifo_le h.bounded .idle, h.pending.keep Access.noConfusion rfl, h.addrReg, h.lenReg⟩

theorem Holds.addr (h : b.Holds f ws offset total) (value : Word) :
    (b.step f (.addr value)).Holds f ws value total :=
  ⟨step_fifo_le h.bounded _, h.pending.keep Access.noConfusion rfl, rfl, h.lenReg⟩

theorem Holds.len (h : b.Holds f ws offset total) (value : Word) :
    (b.step f (.len value)).Holds f ws offset value :=
  ⟨step_fifo_le h.bounded _, h.pending.keep Access.noConfusion rfl, h.addrReg, rfl⟩

/-- CLEAR begins nothing. -/
theorem startPulse_clear (b : Block) : b.startPulse (.command 0x2) = false := by
  cases hbusy : b.master.busy with
  | true => exact startPulse_of_not_fired (not_fired_of_busy hbusy _)
  | false => simp [startPulse, fired, hbusy]

theorem Holds.clear (h : b.Holds f ws offset total) :
    (b.step f (.command 0x2)).Holds f ws offset total :=
  ⟨step_fifo_le h.bounded _, h.pending.keep Access.noConfusion (startPulse_clear b), h.addrReg,
    h.lenReg⟩

/-- What is pending while a transaction is read. -/
structure Streams (f : Storage) (ws : List Word) (b : Block) : Prop where
  bounded : b.fifo.length ≤ fifoDepth
  pending : Pending f b ws
  completes : Completes f b

theorem Streams.idle (h : b.Streams f ws) : (b.step f .idle).Streams f ws :=
  ⟨step_fifo_le h.bounded .idle, h.pending.keep Access.noConfusion rfl,
    h.completes.step fun _ => Access.noConfusion⟩

theorem Streams.take {w : Word} (h : b.Streams f (w :: ws)) (hne : b.fifo ≠ []) :
    b.fifo.headD 0 = w ∧ (b.step f .data).Streams f ws := by
  rcases h.pending.take hne with ⟨hhead, hpending⟩
  exact ⟨hhead, step_fifo_le h.bounded .data, hpending,
    h.completes.step fun _ => Access.noConfusion⟩

end Block

namespace Host

variable {f : Storage} {gap : Nat → Nat} {patience : Nat} {q : Host}

/-! ## One access -/

theorem present_invariant {P : Block → Prop} {a : Access} (hstep : ∀ b, P b → P (b.step f a))
    {b b' : Block} (h : P b) (hpresent : present f a patience b = some b') : P b' := by
  induction patience generalizing b with
  | zero =>
      rw [present] at hpresent
      split at hpresent
      · cases hpresent
        exact h
      · cases hpresent
  | succ patience ih =>
      rw [present] at hpresent
      split at hpresent
      · cases hpresent
        exact h
      · exact ih (hstep b h) hpresent

/-- The router keeps presenting an access until the block accepts it. -/
theorem present_eq_none_iff (a : Access) (patience : Nat) (b : Block) :
    present f a patience b = none ↔
      ∀ k ≤ patience, (Block.run f b (List.replicate k a)).accepts a ≠ true := by
  induction patience generalizing b with
  | zero =>
      rw [present]
      constructor
      · intro h k hk
        rw [Nat.le_zero.mp hk]
        intro haccepts
        have htrue : b.accepts a = true := haccepts
        rw [if_pos htrue] at h
        cases h
      · intro h
        exact if_neg (h 0 (Nat.le_refl 0))
  | succ patience ih =>
      rw [present]
      by_cases haccepts : b.accepts a = true
      · rw [if_pos haccepts]
        constructor
        · intro h
          cases h
        · intro h
          exact absurd haccepts (h 0 (Nat.zero_le _))
      · rw [if_neg haccepts, ih]
        constructor
        · intro h k hk
          cases k with
          | zero => exact haccepts
          | succ k => exact h k (Nat.le_of_succ_le_succ hk)
        · intro h k hk
          exact h (k + 1) (Nat.succ_le_succ hk)

/-- The block that takes a COMMAND in the end is at rest. -/
theorem rests_of_present {value : Word} {b b' : Block} (hlinked : Block.Linked f b)
    (h : present f (.command value) patience b = some b') : b'.Rests := by
  induction patience generalizing b with
  | zero =>
      rw [present] at h
      split at h
      · rename_i haccepts
        cases h
        exact hlinked.rests ((Block.accepts_command_iff value).mp haccepts)
      · cases h
  | succ patience ih =>
      rw [present] at h
      split at h
      · rename_i haccepts
        cases h
        exact hlinked.rests ((Block.accepts_command_iff value).mp haccepts)
      · exact ih (hlinked.step _) h

theorem access_of_present {a : Access} {b : Block} (hq : q.hung = false)
    (h : present f a patience (arrival f gap q) = some b) (value : Block → Word) :
    access f gap patience a value q = (value b, ⟨b.step f a, q.count + 1, false⟩) := by
  rw [Host.access, hq, h]
  rfl

theorem access_hangs {a : Access} (hq : q.hung = false)
    (h : present f a patience (arrival f gap q) = none) (value : Block → Word) :
    (access f gap patience a value q).2.hung = true := by
  rw [Host.access, hq, h]
  rfl

theorem access_hung {a : Access} (hq : q.hung = true) (value : Block → Word) :
    (access f gap patience a value q).2.hung = true := by
  rw [Host.access, if_pos hq]
  exact hq

/-! ## Behind the words left -/

variable {ws : List Word} {offset total : Word}

/-- Every access finds `ws` pending. -/
structure Lags (f : Storage) (ws : List Word) (q : Host) : Prop where
  hung : q.hung = false
  bounded : q.block.fifo.length ≤ Block.fifoDepth
  pending : Block.Pending f q.block ws

theorem Ready.lags (h : q.Ready) : q.Lags f [] where
  hung := h.hung
  bounded := by
    rw [h.quiet.fifo]
    exact Nat.zero_le _
  pending := by
    refine ⟨[], .inl ⟨h.quiet.rests, rfl⟩, ?_⟩
    rw [h.quiet.fifo]
    rfl

theorem Lags.holds (h : q.Lags f ws) : q.block.Holds f ws q.block.addrReg q.block.lenReg :=
  ⟨h.bounded, h.pending, rfl, rfl⟩

/-- The router waits for as long as a full FIFO takes. -/
theorem present_of_draining {b : Block} {r patience : Nat} (h : Block.Draining f r b)
    (hr : r ≤ patience) (value : Word) : ∃ b', present f (.command value) patience b = some b' := by
  induction patience generalizing r b with
  | zero =>
      rcases h.step value with hfree | ⟨r', hlt, _⟩
      · exact ⟨b, if_pos (Block.accepts_command hfree value)⟩
      · omega
  | succ patience ih =>
      rw [present]
      by_cases haccepts : b.accepts (.command value) = true
      · exact ⟨b, if_pos haccepts⟩
      · rw [if_neg haccepts]
        rcases h.step value with hfree | ⟨r', hlt, hnext⟩
        · exact absurd (Block.accepts_command hfree value) haccepts
        · exact ih hnext (by omega)

variable (gap : Nat → Nat) {patience : Nat}

theorem holds_arrival (h : q.block.Holds f ws offset total) :
    (arrival f gap q).Holds f ws offset total :=
  wait_invariant (fun _ hb => hb.idle) (gap q.count) h

variable (patience) in
theorem write_addr_holds (hq : q.hung = false) (h : q.block.Holds f ws offset total)
    (value : Word) : ((port f gap patience).write 0x00 value q).hung = false ∧
      ((port f gap patience).write 0x00 value q).block.Holds f ws value total := by
  have hwrite : (port f gap patience).write 0x00 value q =
      ⟨(arrival f gap q).step f (.addr value), q.count + 1, false⟩ :=
    congrArg Prod.snd (access_of_accepts hq rfl fun _ => 0)
  rw [hwrite]
  exact ⟨rfl, (holds_arrival gap h).addr value⟩

theorem write_len_holds (hq : q.hung = false) (h : q.block.Holds f ws offset total)
    (value : Word) : ((port f gap patience).write 0x04 value q).hung = false ∧
      ((port f gap patience).write 0x04 value q).block.Holds f ws offset value := by
  have hwrite : (port f gap patience).write 0x04 value q =
      ⟨(arrival f gap q).step f (.len value), q.count + 1, false⟩ :=
    congrArg Prod.snd (access_of_accepts hq rfl fun _ => 0)
  rw [hwrite]
  exact ⟨rfl, (holds_arrival gap h).len value⟩

/-- CLEAR lets the transaction that was left run to its end. -/
theorem write_clear_holds {r : Nat} (hq : q.hung = false) (h : q.block.Holds f ws offset total)
    (hdraining : Block.Draining f r (arrival f gap q)) (hr : r ≤ patience) :
    ((port f gap patience).write 0x08 0x2 q).hung = false ∧
      ((port f gap patience).write 0x08 0x2 q).block.Holds f ws offset total ∧
      ((port f gap patience).write 0x08 0x2 q).block.Rests ∧
      ((port f gap patience).write 0x08 0x2 q).block.master.state = .sIdle := by
  have harrival := holds_arrival gap h
  rcases present_of_draining hdraining hr 0x2 with ⟨b, hb⟩
  have hholds : b.Holds f ws offset total :=
    present_invariant (fun _ hb => hb.clear) harrival hb
  have hrests := rests_of_present harrival.pending.linked hb
  have hwrite : (port f gap patience).write 0x08 0x2 q =
      ⟨b.step f (.command 0x2), q.count + 1, false⟩ :=
    congrArg Prod.snd (access_of_present hq hb fun _ => 0)
  rw [hwrite]
  exact ⟨rfl, hholds.clear, hrests.step_rests (Block.startPulse_clear b),
    hrests.step_state (Block.startPulse_clear b)⟩

theorem write_start_holds (hq : q.hung = false) (h : q.block.Holds f ws offset total)
    (hrests : q.block.Rests) (hidle : q.block.master.state = .sIdle) (htotal : total ≠ 0) :
    ((port f gap patience).write 0x08 0x1 q).hung = false ∧
      ((port f gap patience).write 0x08 0x1 q).block.Streams f
        (ws ++ pack f (offset.setWidth 24) total.toNat) := by
  have hstep : ∀ b : Block, (b.Holds f ws offset total ∧ b.Rests ∧ b.master.state = .sIdle) →
      (b.step f .idle).Holds f ws offset total ∧ (b.step f .idle).Rests ∧
        (b.step f .idle).master.state = .sIdle := by
    intro b hb
    exact ⟨hb.1.idle, hb.2.1.step_rests rfl, hb.2.1.step_state rfl⟩
  rcases wait_invariant hstep (gap q.count) ⟨h, hrests, hidle⟩ with ⟨hholds, hrests', hidle'⟩
  have hwrite : (port f gap patience).write 0x08 0x1 q =
      ⟨(arrival f gap q).step f (.command 0x1), q.count + 1, false⟩ :=
    congrArg Prod.snd (access_of_accepts hq (Block.accepts_command hrests'.not_busy 0x1) fun _ => 0)
  have hlen : (arrival f gap q).lenReg ≠ 0 := fun hzero => htotal (hholds.lenReg.symm.trans hzero)
  have hpending := hholds.pending.start hrests' hidle' hlen
  have hpulse : (arrival f gap q).startPulse (.command 1) = true := by
    rw [Block.startPulse, Block.fired, if_neg (by rw [Bool.not_eq_true]; exact hrests'.not_busy)]
    rfl
  have hphase := hrests'.step_begins (f := f) hidle' hpulse hlen
  rw [hwrite]
  refine ⟨rfl, Block.step_fifo_le hholds.bounded _, ?_, .inr (.inr ⟨_, _, _, hphase⟩)⟩
  rw [← hholds.addrReg, ← hholds.lenReg]
  exact hpending

variable (patience) in
/-- ADDR and LEN are written as ever. -/
theorem Lags.write_registers (h : q.Lags f ws) (offset total : Word) :
    ((port f gap patience).write 0x04 total
        ((port f gap patience).write 0x00 offset q)).hung = false ∧
      ((port f gap patience).write 0x04 total
        ((port f gap patience).write 0x00 offset q)).block.Holds f ws offset total := by
  rcases write_addr_holds gap patience h.hung h.holds offset with ⟨hq₁, h₁⟩
  exact write_len_holds gap hq₁ h₁ total

/-- `start_flash_read` sends the next transaction behind the words left, … -/
theorem Lags.start (h : q.Lags f ws) (hpatience : Block.drainCycles ≤ patience)
    (hroom : ws.length ≤ Block.fifoDepth) (offset total : Word) (htotal : total ≠ 0) :
    ((port f gap patience).start offset total q).hung = false ∧
      ((port f gap patience).start offset total q).block.Streams f
        (ws ++ pack f (offset.setWidth 24) total.toNat) := by
  rcases h.write_registers gap patience offset total with ⟨hq₂, h₂⟩
  rcases (holds_arrival gap h₂).pending.draining hroom with ⟨r, hr, hdraining⟩
  rcases write_clear_holds gap hq₂ h₂ hdraining (Nat.le_trans hr hpatience) with
    ⟨hq₃, h₃, hrests, hidle⟩
  exact write_start_holds gap hq₃ h₃ hrests hidle htotal

theorem Ready.draining (h : q.Ready) : Block.Draining f 0 (arrival f gap q) := by
  have hquiet : (arrival f gap q).Quiet :=
    wait_invariant (fun _ hb => hb.step Access.noConfusion rfl) (gap q.count) h.quiet
  exact .inl hquiet.rests.not_busy

/-- … and on a ready block without a wait. -/
theorem Ready.streams (h : q.Ready) (offset total : Word) (htotal : total ≠ 0) :
    ((port f gap patience).start offset total q).hung = false ∧
      ((port f gap patience).start offset total q).block.Streams f
        (pack f (offset.setWidth 24) total.toNat) := by
  have hready := ((h.write_addr f gap patience offset).1.write_len f gap patience total).1
  rcases h.lags.write_registers (f := f) gap patience offset total with ⟨hq₂, h₂⟩
  rcases write_clear_holds gap hq₂ h₂ (hready.draining gap) (Nat.zero_le patience) with
    ⟨hq₃, h₃, hrests, hidle⟩
  exact write_start_holds gap hq₃ h₃ hrests hidle htotal

/-- Without room CLEAR waits forever. -/
theorem write_clear_hangs (hq : q.hung = false) (h : q.block.Holds f ws offset total)
    (hfull : Block.fifoDepth < ws.length) :
    ((port f gap patience).write 0x08 0x2 q).hung = true := by
  have hholds := holds_arrival gap h
  have hlength := hholds.pending.length
  have hpresent : present f (.command 0x2) patience (arrival f gap q) = none := by
    rw [present_eq_none_iff]
    intro k _ hk
    have hroom := (hholds.pending.linked.accepts_iff hholds.bounded 0x2).mp ⟨k, hk⟩
    omega
  exact access_hangs hq hpresent _

/-- The next transaction hangs the bus exactly if the FIFO has no room for the words left. -/
theorem Lags.start_hangs_iff (h : q.Lags f ws) (offset total : Word) (htotal : total ≠ 0) :
    (∀ patience, ((port f gap patience).start offset total q).hung = true) ↔
      Block.fifoDepth < ws.length := by
  constructor
  · intro hhung
    by_contra hroom
    have hstart := h.start gap (Nat.le_refl _) (Nat.not_lt.mp hroom) offset total htotal
    rw [hhung] at hstart
    cases hstart.1
  · intro hfull patience
    rcases h.write_registers gap patience offset total with ⟨hq₂, h₂⟩
    exact access_hung (write_clear_hangs gap hq₂ h₂ hfull) _

end Host

end Spi

end SecureBoot
