import SecureBoot.Soc

/-!
# Anti-rollback over the life of a device

Stage 4 against the counter's strictly-greater write rule, then unbounded
sequences of boots and stray bus writes with the counter as the only state
that survives a reset.
-/

namespace SecureBoot.Bootrom

open Exec

variable {σ : Type} (soc : Soc σ)

/-! ## One execution of Stage 4 -/

def manifestVersion (mem : Memory) : DWord := (mem.word (MANIFEST_BUFFER + VERSION)).setWidth 64

private theorem manifest_ram (offset n : Nat) (h : offset + n ≤ 96) :
    soc.platform.RamRange (MANIFEST_BUFFER + offset) n :=
  soc.ramRange _ _ (by simp only [MANIFEST_BUFFER, BOOT_SCRATCH_BASE]; omega)
    (by simp only [MANIFEST_BUFFER, BOOT_SCRATCH_BASE]; omega)

/-- The write of a larger version lands, so the readback never fails. -/
theorem advanceCounter_eq (version : DWord) (s : Machine (Devices σ))
    (h : s.dev.counter < version) :
    advanceCounter soc.platform version s =
      .ok () { s with dev := { s.dev with counter := version } } := by
  have hback : decide (version < version) = false := by simp
  have hwrite : writeRegister64 soc.platform ROLLBACK_COUNTER_BASE version s =
      .ok () { s with dev := { s.dev with counter := version } } := by
    rw [writeRegister64, soc.write64_counter, RollbackCounter.write_of_lt h]
  rw [advanceCounter, bind_of_ok hwrite]
  exact recoverIf_false soc.platform SR_ROLLBACK_COUNTER _ hback

theorem checkRollbackCounter_refuses (s : Machine (Devices σ))
    (h : manifestVersion s.mem < s.dev.counter) :
    checkRollbackCounter soc.platform MANIFEST_BUFFER s =
      .error .recovery (recoveryState soc.platform SR_ROLLBACK_COUNTER s) := by
  have hread : readRegister64 soc.platform ROLLBACK_COUNTER_BASE s = .ok s.dev.counter s := rfl
  rw [checkRollbackCounter, bind_of_ok hread,
    bind_of_ok (loadWord_ram _ _ s (manifest_ram soc VERSION 4 (by decide)))]
  exact bind_of_error (recoverIf_true soc.platform SR_ROLLBACK_COUNTER s (decide_eq_true h)) _

theorem checkRollbackCounter_accepts (s : Machine (Devices σ))
    (h : s.dev.counter ≤ manifestVersion s.mem) :
    checkRollbackCounter soc.platform MANIFEST_BUFFER s =
      .ok () { s with
        dev := { s.dev with
          counter := RollbackCounter.write s.dev.counter (manifestVersion s.mem) } } := by
  have hread : readRegister64 soc.platform ROLLBACK_COUNTER_BASE s = .ok s.dev.counter s := rfl
  have hle : decide (manifestVersion s.mem < s.dev.counter) = false :=
    decide_eq_false (BitVec.not_lt.mpr h)
  rw [checkRollbackCounter, bind_of_ok hread,
    bind_of_ok (loadWord_ram _ _ s (manifest_ram soc VERSION 4 (by decide)))]
  refine (bind_of_ok (recoverIf_false soc.platform SR_ROLLBACK_COUNTER s hle) _).trans ?_
  show (if s.dev.counter < manifestVersion s.mem then
    advanceCounter soc.platform (manifestVersion s.mem) else pure ()) s = _
  by_cases hlt : s.dev.counter < manifestVersion s.mem
  · rw [if_pos hlt, advanceCounter_eq soc _ s hlt, RollbackCounter.write_of_lt hlt]
  · rw [if_neg hlt, pure_apply, RollbackCounter.write_of_le (BitVec.not_lt.mp hlt)]

/-! ## The life of a device -/

/-- Between resets: Stage 4 on some machine, or a 64-bit store to the counter. -/
inductive Event (σ : Type) where
  | boot (machine : Machine (Devices σ))
  | store (value : DWord)

/-- The machine of a boot, with the counter the device really has. -/
def Event.withCounter (counter : DWord) (m : Machine (Devices σ)) : Machine (Devices σ) :=
  { m with dev := { m.dev with counter := counter } }

def stage4 (counter : DWord) (m : Machine (Devices σ)) :
    EStateM.Result Exit (Machine (Devices σ)) Unit :=
  checkRollbackCounter soc.platform MANIFEST_BUFFER (Event.withCounter counter m)

def resultState {ε τ α : Type} : EStateM.Result ε τ α → τ
  | .ok _ s => s
  | .error _ s => s

def nextCounter (counter : DWord) : Event σ → DWord
  | .boot m => (resultState (stage4 soc counter m)).dev.counter
  | .store value => RollbackCounter.write counter value

/-- The version an execution accepts, if it accepts. -/
def accepted (counter : DWord) : Event σ → Option DWord
  | .boot m =>
      match stage4 soc counter m with
      | .ok _ _ => some (manifestVersion m.mem)
      | .error _ _ => none
  | .store _ => none

/-- The version an execution accepts, or the value a store puts into the counter. -/
def raised (counter : DWord) : Event σ → Option DWord
  | .boot m => accepted soc counter (.boot m)
  | .store value => if counter < value then some value else none

/-- The events of a life, each with the counter it finds. -/
def life (counter : DWord) : List (Event σ) → List (DWord × Event σ)
  | [] => []
  | e :: events => (counter, e) :: life (nextCounter soc counter e) events

/-- What Stage 4 does to a machine whose counter is `counter`. -/
structure Stage4Ok (counter : DWord) (m : Machine (Devices σ)) : Prop where
  accepts : (∃ s, stage4 soc counter m = .ok () s) ↔ counter ≤ manifestVersion m.mem
  advances : ∀ s, stage4 soc counter m = .ok () s →
    s.dev.counter.toNat = max counter.toNat (manifestVersion m.mem).toNat
  refuses : ∀ e s, stage4 soc counter m = .error e s →
    e = .recovery ∧ s.dev.counter = counter ∧ s.dev.status = m.dev.status ||| SR_ROLLBACK_COUNTER
  readback : counter < manifestVersion m.mem →
    ∃ s, advanceCounter soc.platform (manifestVersion m.mem) (Event.withCounter counter m) =
      .ok () s

theorem stage4Ok (counter : DWord) (m : Machine (Devices σ)) : Stage4Ok soc counter m := by
  have hcounter : (Event.withCounter counter m).dev.counter = counter := rfl
  have hmem : (Event.withCounter counter m).mem = m.mem := rfl
  have hread : counter < manifestVersion m.mem →
      ∃ s, advanceCounter soc.platform (manifestVersion m.mem) (Event.withCounter counter m) =
        .ok () s := fun h => ⟨_, advanceCounter_eq soc _ _ h⟩
  by_cases h : counter ≤ manifestVersion m.mem
  · have hok := checkRollbackCounter_accepts soc (Event.withCounter counter m) h
    refine ⟨⟨fun _ => h, fun _ => ⟨_, hok⟩⟩, ?_, ?_, hread⟩
    · intro s hs
      rw [stage4, hok] at hs
      cases hs
      exact RollbackCounter.write_toNat _ _
    · intro e s hs
      rw [stage4, hok] at hs
      cases hs
  · have herr := checkRollbackCounter_refuses soc (Event.withCounter counter m)
      (BitVec.not_le.mp h)
    refine ⟨⟨?_, fun hle => absurd hle h⟩, ?_, ?_, hread⟩
    · intro h
      rcases h with ⟨s, hs⟩
      rw [stage4, herr] at hs
      cases hs
    · intro s hs
      rw [stage4, herr] at hs
      cases hs
    · intro e s hs
      rw [stage4, herr] at hs
      cases hs
      exact ⟨rfl, rfl, rfl⟩

theorem accepted_ge (counter : DWord) (e : Event σ) (v : DWord)
    (h : accepted soc counter e = some v) : counter ≤ v := by
  cases e with
  | store value => cases h
  | boot m =>
      have hok := (stage4Ok soc counter m).accepts
      simp only [accepted] at h
      cases hs : stage4 soc counter m with
      | ok u s =>
          rw [hs] at h
          cases h
          exact hok.mp ⟨s, hs⟩
      | error x s =>
          rw [hs] at h
          cases h

/-- Every event leaves the counter at least where it was, … -/
theorem le_nextCounter (counter : DWord) (e : Event σ) : counter ≤ nextCounter soc counter e := by
  cases e with
  | store value => exact RollbackCounter.le_write counter value
  | boot m =>
      have hm := stage4Ok soc counter m
      rw [nextCounter]
      cases hs : stage4 soc counter m with
      | ok u s =>
          rw [BitVec.le_def, resultState, hm.advances s hs]
          omega
      | error x s =>
          rw [resultState, (hm.refuses x s hs).2.1]
          exact BitVec.le_refl _

/-- … and at least at the value it accepted or stored. -/
theorem raised_le_nextCounter (counter : DWord) (e : Event σ) (v : DWord)
    (h : raised soc counter e = some v) : v ≤ nextCounter soc counter e := by
  cases e with
  | store value =>
      simp only [raised] at h
      split at h
      · rename_i hlt
        cases h
        rw [nextCounter, RollbackCounter.write_of_lt hlt]
        exact BitVec.le_refl _
      · cases h
  | boot m =>
      have hm := stage4Ok soc counter m
      simp only [raised, accepted] at h
      rw [nextCounter]
      cases hs : stage4 soc counter m with
      | ok u s =>
          rw [hs] at h
          cases h
          rw [BitVec.le_def, resultState, hm.advances s hs]
          omega
      | error x s =>
          rw [hs] at h
          cases h

theorem life_counter_ge (counter : DWord) (events : List (Event σ)) (x : DWord × Event σ)
    (hx : x ∈ life soc counter events) : counter ≤ x.1 := by
  induction events generalizing counter with
  | nil => cases hx
  | cons e events ih =>
      cases hx with
      | head => exact BitVec.le_refl _
      | tail _ htail => exact BitVec.le_trans (le_nextCounter soc counter e) (ih _ htail)

/-- Whatever was accepted or stored earlier bounds every version accepted later. -/
theorem life_pairwise (counter : DWord) (events : List (Event σ)) :
    (life soc counter events).Pairwise fun x y =>
      ∀ v w, raised soc x.1 x.2 = some v → accepted soc y.1 y.2 = some w → v ≤ w := by
  induction events generalizing counter with
  | nil => exact List.Pairwise.nil
  | cons e events ih =>
      refine List.Pairwise.cons ?_ (ih _)
      intro y hy v w hv hw
      have hnext := life_counter_ge soc _ events y hy
      exact BitVec.le_trans (raised_le_nextCounter soc counter e v hv)
        (BitVec.le_trans hnext (accepted_ge soc y.1 y.2 w hw))

/-- The rollback protection holds over every life: at each event the counter does not decrease,
each execution of Stage 4 decides and advances as specified, and accepted versions never fall
below anything accepted or stored before. -/
theorem antiRollback_life (counter : DWord) (events : List (Event σ)) :
    (∀ x ∈ life soc counter events, x.1 ≤ nextCounter soc x.1 x.2) ∧
      (∀ x ∈ life soc counter events, ∀ m, x.2 = .boot m → Stage4Ok soc x.1 m) ∧
      (life soc counter events).Pairwise fun x y =>
        ∀ v w, raised soc x.1 x.2 = some v → accepted soc y.1 y.2 = some w → v ≤ w :=
  ⟨fun x _ => le_nextCounter soc x.1 x.2, fun x _ m _ => stage4Ok soc x.1 m,
    life_pairwise soc counter events⟩

end SecureBoot.Bootrom
