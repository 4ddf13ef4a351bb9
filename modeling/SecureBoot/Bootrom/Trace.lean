import SecureBoot.Bootrom.Frame

/-!
# A platform that keeps a log

The same hardware, with a record of every access to a peripheral and the value
it carried. Software cannot read the log.
-/

namespace SecureBoot.Bootrom

/-- An access to a peripheral and its value. -/
inductive MmioEvent where
  | read8 (a : Nat) (value : Byte)
  | write8 (a : Nat) (value : Byte)
  | read32 (a : Nat) (value : Word)
  | write32 (a : Nat) (value : Word)
  | read64 (a : Nat) (value : DWord)
  | write64 (a : Nat) (value : DWord)
deriving DecidableEq, Repr

variable {δ : Type} (p : Platform δ)

/-- The log is the second component of the device state, newest access last. -/
def Platform.logged : Platform (δ × List MmioEvent) where
  ram := p.ram
  mmio := p.mmio
  read8 a d :=
    ((p.read8 a d.1).1, (p.read8 a d.1).2, d.2 ++ [.read8 a (p.read8 a d.1).1])
  write8 a b d := (p.write8 a b d.1, d.2 ++ [.write8 a b])
  read32 a d :=
    ((p.read32 a d.1).1, (p.read32 a d.1).2, d.2 ++ [.read32 a (p.read32 a d.1).1])
  write32 a value d := (p.write32 a value d.1, d.2 ++ [.write32 a value])
  read64 a d :=
    ((p.read64 a d.1).1, (p.read64 a d.1).2, d.2 ++ [.read64 a (p.read64 a d.1).1])
  write64 a value d := (p.write64 a value d.1, d.2 ++ [.write64 a value])
  hartid := p.hartid
  frames := {
    stale := fun d => p.frames.stale d.1
    during := fun d => p.frames.during d.1
    after := fun d => p.frames.after d.1 }

/-- A machine with a log. -/
abbrev Logged (δ : Type) := Machine (δ × List MmioEvent)

/-! ## Storing a buffer anywhere -/

/-- A buffer that reaches beyond DRAM leaves the bytes of its DRAM part in memory, … -/
def Platform.stored (a : Nat) (bs : List Byte) (mem : Memory) : Memory := fun x =>
  if p.ram x then mem.write a bs x else mem x

/-- … and the others go to the peripherals. -/
def Platform.storeEvents (a : Nat) : List Byte → List MmioEvent
  | [] => []
  | b :: bs => (if p.ram a then [] else [.write8 a b]) ++ storeEvents (a + 1) bs

@[simp] theorem stored_nil (a : Nat) (mem : Memory) : p.stored a [] mem = mem := by
  funext x
  simp [Platform.stored]

theorem stored_append (a : Nat) (bs cs : List Byte) (mem : Memory) :
    p.stored a (bs ++ cs) mem = p.stored (a + bs.length) cs (p.stored a bs mem) := by
  funext x
  unfold Platform.stored
  cases hram : p.ram x with
  | false => simp
  | true =>
      rw [if_pos rfl, if_pos rfl, Memory.write_append]
      simp [Memory.write, hram]

/-- One byte. -/
theorem stored_one (a : Nat) (b : Byte) (mem : Memory) :
    p.stored a [b] mem = if p.ram a then mem.store a b else mem := by
  funext x
  unfold Platform.stored
  rw [← Memory.store_eq_write]
  by_cases hx : x = a
  · rw [hx]
    cases p.ram a <;> rfl
  · have hsame : mem.store a b x = mem x := if_neg hx
    rw [hsame, ite_self]
    cases p.ram a with
    | false => rfl
    | true => exact hsame.symm

theorem storeEvents_length (a : Nat) (bs : List Byte) :
    (p.storeEvents a bs).length ≤ bs.length := by
  induction bs generalizing a with
  | nil => exact Nat.le_refl 0
  | cons b bs ih =>
      have hrest := ih (a + 1)
      rw [Platform.storeEvents, List.length_append, List.length_cons]
      split
      · simp only [List.length_nil]
        omega
      · simp only [List.length_singleton]
        omega

variable {p}

/-- Between the two states `bs` was stored from `a` on, with `events` as the accesses made. -/
structure Progress (p : Platform δ) (a : Nat) (bs : List Byte) (events : List MmioEvent)
    (s s' : Logged δ) : Prop where
  mem : s'.mem = p.stored a bs s.mem
  log : s'.dev.2 = s.dev.2 ++ events
  core : s'.core = s.core

theorem Progress.trans {a : Nat} {bs cs : List Byte} {es fs : List MmioEvent}
    {s s₁ s' : Logged δ} (h : Progress p a bs es s s₁)
    (h' : Progress p (a + bs.length) cs fs s₁ s') : Progress p a (bs ++ cs) (es ++ fs) s s' where
  mem := by rw [stored_append, ← h.mem, h'.mem]
  log := by rw [← List.append_assoc, ← h.log, h'.log]
  core := h'.core.trans h.core

/-- An access that stores nothing. -/
theorem Progress.before {a : Nat} {bs : List Byte} {es fs : List MmioEvent}
    {s s₁ s' : Logged δ} (h : Progress p a [] es s s₁)
    (h' : Progress p a bs fs s₁ s') : Progress p a bs (es ++ fs) s s' := h.trans h'

theorem Progress.refl (a : Nat) (s : Logged δ) : Progress p a [] [] s s where
  mem := (stored_nil p a s.mem).symm
  log := (List.append_nil _).symm
  core := rfl

theorem Progress.read32 (a b : Nat) (s : Logged δ) :
    Progress p a [] [.read32 b (p.read32 b s.dev.1).1] s
      { s with dev := (p.logged.read32 b s.dev).2 } where
  mem := (stored_nil p a s.mem).symm
  log := rfl
  core := rfl

open Exec

theorem readRegister_progress (a b : Nat) (s : Logged δ) :
    Wp (readRegister p.logged b) (fun word s' => Progress p a [] [.read32 b word] s s')
      (fun _ _ => False) s :=
  wp_of_ok rfl (.read32 a b s)

theorem storeByte_progress (a : Nat) (b : Byte) (s : Logged δ) :
    Wp (storeByte p.logged a b) (fun _ s' => Progress p a [b] (p.storeEvents a [b]) s s')
      (fun e s' => e = .fault a ∧ p.mapped a = false ∧ s' = s) s := by
  unfold Platform.mapped
  cases hram : p.ram a with
  | true =>
      refine wp_of_ok (storeByte_ram p.logged a b s hram) ⟨?_, ?_, rfl⟩
      · rw [stored_one, hram, if_pos rfl]
      · simp [Platform.storeEvents, hram]
  | false =>
      cases hmmio : p.mmio a with
      | true =>
          refine wp_of_ok (storeByte_mmio p.logged a b s hram hmmio) ⟨?_, ?_, rfl⟩
          · rw [stored_one, hram, if_neg Bool.false_ne_true]
          · simp [Platform.storeEvents, hram, Platform.logged]
      | false => exact wp_of_error (storeByte_fault p.logged a b s hram hmmio) ⟨rfl, rfl, rfl⟩

/-- A store of a byte string completes, or stops at its first unmapped address, with the bytes
before it stored. -/
theorem storeBytes_progress (a : Nat) (bs : List Byte) (s : Logged δ) :
    Wp (storeBytes p.logged a bs) (fun _ s' => Progress p a bs (p.storeEvents a bs) s s')
      (fun e s' => ∃ k, k < bs.length ∧ e = .fault (a + k) ∧ p.mapped (a + k) = false ∧
        Progress p a (bs.take k) (p.storeEvents a (bs.take k)) s s') s := by
  induction bs generalizing a s with
  | nil => exact wp_of_ok rfl (.refl a s)
  | cons b bs ih =>
      rw [storeBytes]
      refine (storeByte_progress a b s).bind ?_ ?_
      · intro _ s₁ h₁
        rw [show p.storeEvents a [b] = if p.ram a then [] else [.write8 a b] from
          List.append_nil _] at h₁
        refine (ih (a + 1) s₁).mono ?_ ?_
        · exact fun _ s₂ h₂ => h₁.trans h₂
        · intro e s₂ h
          rcases h with ⟨k, hk, he, hun, h₂⟩
          have haddr : a + 1 + k = a + (k + 1) := by omega
          rw [haddr] at he hun
          exact ⟨k + 1, Nat.succ_lt_succ hk, he, hun, h₁.trans h₂⟩
      · intro e s₁ h
        rcases h with ⟨he, hun, hs⟩
        subst hs
        exact ⟨0, Nat.succ_pos _, he, hun, .refl a s₁⟩

end SecureBoot.Bootrom
