import SecureBoot.Hardware.SpiPort
import SecureBoot.Hardware.Spi.Flow

/-!
# The register block on the bus

Software reaches the registers one access at a time, in program order and at
most once a cycle, after any number of cycles. The router holds an access until
the block accepts it. Between transactions the block serves every read of
flash.
-/

namespace SecureBoot.Spi

open Words

/-- The block, how many accesses it has seen, and whether one was never accepted. -/
structure Host where
  block : Block
  count : Nat
  hung : Bool
deriving DecidableEq, Repr

namespace Block

def accepts (b : Block) : Access → Bool
  | .command _ => !b.master.busy
  | .data => !b.fifo.isEmpty
  | _ => true

theorem accepts_data {b : Block} (h : b.fifo ≠ []) : b.accepts .data = true := by
  have hdata : b.accepts .data = !b.fifo.isEmpty := rfl
  simp [hdata, h]

theorem accepts_command {b : Block} (h : b.master.busy = false) (value : Word) :
    b.accepts (.command value) = true := by
  have hcommand : b.accepts (.command value) = !b.master.busy := rfl
  simp [hcommand, h]

/-- The registers whose reads change nothing. -/
def register (b : Block) (offset : Nat) : Word :=
  if offset = 0x00 then b.addrReg
  else if offset = 0x04 then b.lenReg
  else if offset = 0x0C then b.status
  else if offset = 0x14 then BitVec.ofNat 32 b.master.bytesRemaining
  else 0

end Block

namespace Host

def reset : Host := ⟨Block.reset, 0, false⟩

variable (f : Storage) (gap : Nat → Nat) (patience : Nat)

def wait (cycles : Nat) (b : Block) : Block := Block.run f b (List.replicate cycles .idle)

/-- The block in the cycle in which it accepts `a`, unless patience runs out. -/
def present (a : Access) : Nat → Block → Option Block
  | 0, b => if b.accepts a then some b else none
  | k + 1, b => if b.accepts a then some b else present a k (b.step f a)

/-- `gap` cycles go by before each access. -/
def arrival (q : Host) : Block := wait f (gap q.count) q.block

def access (a : Access) (value : Block → Word) (q : Host) : Word × Host :=
  if q.hung then (0, q)
  else
    match present f a patience (arrival f gap q) with
    | some b => (value b, ⟨b.step f a, q.count + 1, false⟩)
    | none => (0, { q with hung := true })

def writeAccess (offset : Nat) (value : Word) : Access :=
  if offset = 0x00 then .addr value
  else if offset = 0x04 then .len value
  else if offset = 0x08 then .command value
  else .idle

def port : SpiPort Host where
  read offset q :=
    if offset = 0x10 then access f gap patience .data (fun b => b.fifo.headD 0) q
    else access f gap patience .idle (fun b => b.register offset) q
  write offset value q := (access f gap patience (writeAccess offset value) (fun _ => 0) q).2

variable {f gap patience} {q : Host}

/-! ## One access -/

theorem wait_invariant {P : Block → Prop} (hstep : ∀ b, P b → P (b.step f .idle)) (cycles : Nat)
    {b : Block} (h : P b) : P (wait f cycles b) := by
  induction cycles generalizing b with
  | zero => exact h
  | succ cycles ih => exact ih (hstep b h)

theorem access_of_accepts {a : Access} (hq : q.hung = false)
    (h : (arrival f gap q).accepts a = true) (value : Block → Word) :
    access f gap patience a value q =
      (value (arrival f gap q), ⟨(arrival f gap q).step f a, q.count + 1, false⟩) := by
  have hpresent : present f a patience (arrival f gap q) = some (arrival f gap q) := by
    cases patience with
    | zero => rw [present, if_pos h]
    | succ k => rw [present, if_pos h]
  rw [access, hq, hpresent]
  rfl

variable (f gap patience)

theorem read_status (hq : q.hung = false) : (port f gap patience).read 0x0C q =
    ((arrival f gap q).status, ⟨(arrival f gap q).step f .idle, q.count + 1, false⟩) :=
  access_of_accepts hq rfl _

theorem read_data (hq : q.hung = false) (hne : (arrival f gap q).fifo ≠ []) :
    (port f gap patience).read 0x10 q =
      ((arrival f gap q).fifo.headD 0, ⟨(arrival f gap q).step f .data, q.count + 1, false⟩) :=
  access_of_accepts hq (Block.accepts_data hne) _

/-! ## The four writes -/

/-- The next access finds the block as after reset, whatever the gap. -/
structure Ready (q : Host) : Prop where
  hung : q.hung = false
  quiet : q.block.Quiet

theorem ready_reset : reset.Ready := ⟨rfl, Block.quiet_reset⟩

/-- On a ready block every access but a read of DATA is accepted at once. -/
theorem Ready.access (h : q.Ready) (a : Access) (ha : a ≠ .data) (value : Block → Word) :
    ∃ b : Block, b.Quiet ∧ b.addrReg = q.block.addrReg ∧ b.lenReg = q.block.lenReg ∧
      (access f gap patience a value q).2 = ⟨b.step f a, q.count + 1, false⟩ := by
  have hstep : ∀ b : Block,
      b.Quiet ∧ b.addrReg = q.block.addrReg ∧ b.lenReg = q.block.lenReg →
        (b.step f .idle).Quiet ∧ (b.step f .idle).addrReg = q.block.addrReg ∧
          (b.step f .idle).lenReg = q.block.lenReg := by
    intro b hb
    exact ⟨hb.1.step Access.noConfusion rfl, hb.2⟩
  have harrival := wait_invariant hstep (gap q.count) ⟨h.quiet, rfl, rfl⟩
  have haccepts : (arrival f gap q).accepts a = true := by
    cases a with
    | command value => exact Block.accepts_command harrival.1.rests.not_busy value
    | data => exact absurd rfl ha
    | idle => rfl
    | addr value => rfl
    | len value => rfl
  refine ⟨arrival f gap q, harrival.1, harrival.2.1, harrival.2.2, ?_⟩
  rw [access_of_accepts h.hung haccepts]

theorem Ready.write_addr (h : q.Ready) (value : Word) :
    ((port f gap patience).write 0x00 value q).Ready ∧
      ((port f gap patience).write 0x00 value q).block.addrReg = value := by
  rcases h.access f gap patience (.addr value) Access.noConfusion fun _ => 0 with
    ⟨b, hquiet, _, _, heq⟩
  have hwrite : (port f gap patience).write 0x00 value q = ⟨b.step f (.addr value), _, _⟩ := heq
  have hnext : (b.step f (.addr value)).Quiet := hquiet.step Access.noConfusion rfl
  rw [hwrite]
  exact ⟨⟨rfl, hnext⟩, rfl⟩

theorem Ready.write_len (h : q.Ready) (value : Word) :
    ((port f gap patience).write 0x04 value q).Ready ∧
      ((port f gap patience).write 0x04 value q).block.addrReg = q.block.addrReg ∧
      ((port f gap patience).write 0x04 value q).block.lenReg = value := by
  rcases h.access f gap patience (.len value) Access.noConfusion fun _ => 0 with
    ⟨b, hquiet, haddr, _, heq⟩
  have hwrite : (port f gap patience).write 0x04 value q = ⟨b.step f (.len value), _, _⟩ := heq
  have hnext : (b.step f (.len value)).Quiet := hquiet.step Access.noConfusion rfl
  rw [hwrite]
  exact ⟨⟨rfl, hnext⟩, haddr, rfl⟩

theorem Ready.write_clearDone (h : q.Ready) :
    ((port f gap patience).write 0x08 0x2 q).Ready ∧
      ((port f gap patience).write 0x08 0x2 q).block.addrReg = q.block.addrReg ∧
      ((port f gap patience).write 0x08 0x2 q).block.lenReg = q.block.lenReg := by
  rcases h.access f gap patience (.command 0x2) Access.noConfusion fun _ => 0 with
    ⟨b, hquiet, haddr, hlen, heq⟩
  have hwrite : (port f gap patience).write 0x08 0x2 q = ⟨b.step f (.command 0x2), _, _⟩ := heq
  have hstart : b.startPulse (.command 0x2) = false := by
    simp [Block.startPulse, Block.fired, hquiet.rests.not_busy]
  rw [hwrite]
  exact ⟨⟨rfl, hquiet.step Access.noConfusion hstart⟩, haddr, hlen⟩

theorem Ready.write_start (h : q.Ready) (hlen : q.block.lenReg ≠ 0) :
    ((port f gap patience).write 0x08 0x1 q).hung = false ∧
      ((port f gap patience).write 0x08 0x1 q).block.Flowing f (q.block.addrReg.setWidth 24)
        q.block.lenReg.toNat 0 := by
  rcases h.access f gap patience (.command 0x1) Access.noConfusion fun _ => 0 with
    ⟨b, hquiet, haddr, hreg, heq⟩
  have hwrite : (port f gap patience).write 0x08 0x1 q = ⟨b.step f (.command 0x1), _, _⟩ := heq
  have hflow := hquiet.start (f := f) (by rw [hreg]; exact hlen)
  rw [haddr, hreg] at hflow
  rw [hwrite]
  exact ⟨rfl, hflow⟩

/-- `start_flash_read` on a ready block starts the stream. -/
theorem Ready.start (h : q.Ready) (offset total : Word) (htotal : total ≠ 0) :
    ((port f gap patience).start offset total q).hung = false ∧
      ((port f gap patience).start offset total q).block.Flowing f (offset.setWidth 24)
        total.toNat 0 := by
  rcases h.write_addr f gap patience offset with ⟨h₁, haddr₁⟩
  rcases h₁.write_len f gap patience total with ⟨h₂, haddr₂, hlen₂⟩
  rcases h₂.write_clearDone f gap patience with ⟨h₃, haddr₃, hlen₃⟩
  rw [haddr₁] at haddr₂
  rw [haddr₂] at haddr₃
  rw [hlen₂] at hlen₃
  have hstart := h₃.write_start f gap patience (by rw [hlen₃]; exact htotal)
  rw [haddr₃, hlen₃] at hstart
  exact hstart

/-! ## Polling -/

theorem dataReady_status (b : Block) (herror : b.master.errorReg = false) :
    SpiPort.dataReady b.status = !b.fifo.isEmpty ∧ SpiPort.dataWait b.status = b.fifo.isEmpty := by
  unfold Block.status
  rw [herror]
  cases b.fifo.isEmpty <;> cases b.doneSticky <;> cases b.master.busy <;> decide

theorem doneReady_status (b : Block) :
    SpiPort.doneReady b.status = b.doneSticky ∧ SpiPort.doneWait b.status = !b.doneSticky := by
  unfold Block.status
  cases b.fifo.isEmpty <;> cases b.master.errorReg <;> cases b.doneSticky <;>
    cases b.master.busy <;> decide

variable {address : BitVec 24} {n : Nat}

theorem flowing_arrival {taken : Nat} (h : q.block.Flowing f address n taken) :
    (arrival f gap q).Flowing f address n taken :=
  wait_invariant (fun _ hb => hb.step .idle (.inl rfl)) (gap q.count) h

theorem soon_arrival {k : Nat} (h : q.block.Soon f address n k) :
    (arrival f gap q).Soon f address n k :=
  wait_invariant (fun _ hb => (hb.mono (Nat.le_succ k)).step) (gap q.count) h

theorem nonempty_arrival (h : q.block.fifo ≠ []) : (arrival f gap q).fifo ≠ [] := by
  have hstep : ∀ b : Block, b.fifo ≠ [] → (b.step f .idle).fifo ≠ [] := by
    intro b hb
    rw [Block.step_fifo]
    simp [hb]
  exact wait_invariant hstep (gap q.count) h

/-- DATA_READY is read, and the word stays where it is. -/
theorem answers_now {taken : Nat} (budget : Nat) (hq : q.hung = false)
    (hflow : (arrival f gap q).Flowing f address n taken) (hne : (arrival f gap q).fifo ≠ []) :
    ∃ q', (port f gap patience).Answers SpiPort.dataReady SpiPort.dataWait budget q q' ∧
      q'.hung = false ∧ q'.block.Flowing f address n taken ∧ q'.block.fifo ≠ [] := by
  have hread := read_status f gap patience hq
  have hready : SpiPort.dataReady ((port f gap patience).read 0x0C q).1 = true := by
    rw [hread, (dataReady_status _ hflow.errorReg).1]
    simp [hne]
  refine ⟨_, .ready budget q hready, ?_⟩
  rw [hread]
  refine ⟨rfl, hflow.step .idle (.inl rfl), ?_⟩
  show ((arrival f gap q).step f .idle).fifo ≠ []
  rw [Block.step_fifo]
  simp [hne]

/-- DATA_READY comes within `k` polls. -/
theorem answers_data {taken : Nat} (k : Nat) (q : Host) (hq : q.hung = false)
    (hflow : q.block.Flowing f address n taken) (hsoon : q.block.Soon f address n k) :
    ∃ q', (port f gap patience).Answers SpiPort.dataReady SpiPort.dataWait k q q' ∧
      q'.hung = false ∧ q'.block.Flowing f address n taken ∧ q'.block.fifo ≠ [] := by
  induction k generalizing q with
  | zero =>
      rcases soon_arrival f gap hsoon with hne | ⟨ph, _, hrank⟩
      · exact answers_now f gap patience 0 hq (flowing_arrival f gap hflow) hne
      · exact absurd hrank (Nat.not_lt_zero _)
  | succ k ih =>
      have hflow' := flowing_arrival f gap hflow
      by_cases hempty : (arrival f gap q).fifo = []
      · have hread := read_status f gap patience hq
        have hwait : SpiPort.dataWait ((port f gap patience).read 0x0C q).1 = true := by
          rw [hread, (dataReady_status _ hflow'.errorReg).2]
          simp [hempty]
        rcases ih ⟨(arrival f gap q).step f .idle, q.count + 1, false⟩ rfl
          (hflow'.step .idle (.inl rfl)) (soon_arrival f gap hsoon).step with ⟨q', hrest, hq'⟩
        refine ⟨q', .wait k q q' hwait ?_, hq'⟩
        rw [hread]
        exact hrest
      · exact answers_now f gap patience (k + 1) hq hflow' hempty

/-- With `k` words to go, the rest of the transaction is delivered. -/
theorem delivers (budget : Nat) (hbudget : 161 ≤ budget) (k taken : Nat) (q : Host)
    (hk : taken + k = wordCount n) (hq : q.hung = false)
    (hflow : q.block.Flowing f address n taken) :
    ∃ q', (port f gap patience).Delivers budget (n - 4 * taken) q
        (f.memory.read (address.toNat + 4 * taken) (n - 4 * taken)) q' ∧
      q'.hung = false ∧ q'.block.Flowing f address n (wordCount n) := by
  unfold wordCount at hk
  induction k generalizing taken q with
  | zero =>
      have htaken : taken = wordCount n := hk
      rw [show n - 4 * taken = 0 by omega]
      exact ⟨q, .nil q, hq, htaken ▸ hflow⟩
  | succ k ih =>
      have hsoon : q.block.Soon f address n budget :=
        (hflow.soon (by unfold wordCount; omega)).mono hbudget
      rcases answers_data f gap patience budget q hq hflow hsoon with ⟨q₁, hpoll, hq₁, hflow₁, hne⟩
      have hne' := nonempty_arrival f gap hne
      have hflow₁' := flowing_arrival f gap hflow₁
      have hread := read_data f gap patience hq₁ hne'
      rw [(hflow₁'.head hne').1] at hread
      rcases ih (taken + 1) ⟨(arrival f gap q₁).step f .data, q₁.count + 1, false⟩ (by omega) rfl
        (hflow₁'.step .data (.inr ⟨rfl, hne'⟩)) with ⟨q', hrest, hq'⟩
      refine ⟨q', ?_, hq'⟩
      have hword := SpiPort.Delivers.word (n - 4 * taken) q q₁ q' _ (by omega) hpoll (by
        rw [hread, show n - 4 * taken - 4 = n - 4 * (taken + 1) by omega]
        exact hrest)
      rw [hread] at hword
      rw [read_packedWord]
      exact hword

/-- DONE is read, and nothing is left of the transaction. -/
theorem done_now (budget : Nat) (hq : q.hung = false)
    (hflow : (arrival f gap q).Flowing f address n (wordCount n))
    (hdone : (arrival f gap q).doneSticky = true) :
    ∃ q', (port f gap patience).Answers SpiPort.doneReady SpiPort.doneWait budget q q' ∧
      q'.Ready := by
  have hread := read_status f gap patience hq
  have hready : SpiPort.doneReady ((port f gap patience).read 0x0C q).1 = true := by
    rw [hread, (doneReady_status _).1, hdone]
  refine ⟨_, .ready budget q hready, ?_⟩
  rw [hread]
  exact ⟨rfl, hflow.finishing.1.quiet hflow.finishing.2 hdone⟩

theorem done_arrival (hdone : q.block.doneSticky = true) : (arrival f gap q).doneSticky = true := by
  have hstep : ∀ b : Block, b.doneSticky = true → (b.step f .idle).doneSticky = true := by
    intro b hb
    rw [Block.step_doneSticky, hb]
    simp [Block.clearsDone, Block.fired]
  exact wait_invariant hstep (gap q.count) hdone

/-- DONE comes with the first poll or the second one. -/
theorem answers_done (budget : Nat) (hbudget : 1 ≤ budget) (hq : q.hung = false)
    (hflow : q.block.Flowing f address n (wordCount n)) :
    ∃ q', (port f gap patience).Answers SpiPort.doneReady SpiPort.doneWait budget q q' ∧
      q'.Ready := by
  have hflow' := flowing_arrival f gap hflow
  cases hdone : (arrival f gap q).doneSticky with
  | true => exact done_now f gap patience budget hq hflow' hdone
  | false =>
      have hread := read_status f gap patience hq
      have hwait : SpiPort.doneWait ((port f gap patience).read 0x0C q).1 = true := by
        rw [hread, (doneReady_status _).2, hdone]
        rfl
      have hnext : ((arrival f gap q).step f .idle).Flowing f address n (wordCount n) :=
        hflow'.step .idle (.inl rfl)
      have hdone' := done_arrival (q := ⟨(arrival f gap q).step f .idle, q.count + 1, false⟩)
        f gap (hflow'.finishing.1.done_next hdone)
      rcases done_now (q := ⟨(arrival f gap q).step f .idle, q.count + 1, false⟩) f gap patience
        (budget - 1) rfl (flowing_arrival f gap hnext) hdone' with ⟨q', hrest, hq'⟩
      have hpoll := SpiPort.Answers.wait (budget - 1) q q' hwait (by rw [hread]; exact hrest)
      rw [Nat.sub_add_cancel hbudget] at hpoll
      exact ⟨q', hpoll, hq'⟩

/-- A ready block serves a transaction and is ready again. -/
theorem Ready.serves (h : q.Ready) (budget : Nat) (hbudget : 161 ≤ budget) (offset total : Word)
    (htotal : total ≠ 0) :
    ∃ q', (port f gap patience).Serves budget offset total q
        (f.memory.read (offset.setWidth 24).toNat total.toNat) q' ∧ q'.Ready := by
  rcases h.start f gap patience offset total htotal with ⟨hq, hflow⟩
  rcases delivers f gap patience budget hbudget (wordCount total.toNat) 0 _ (Nat.zero_add _) hq
    hflow with ⟨q₁, hdata, hq₁, hflow₁⟩
  rcases answers_done f gap patience budget (by omega) hq₁ hflow₁ with ⟨q', hdone, hq'⟩
  exact ⟨q', ⟨q₁, hdata, hdone⟩, hq'⟩

end Host

end SecureBoot.Spi
