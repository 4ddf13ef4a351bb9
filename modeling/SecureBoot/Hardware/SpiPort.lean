import SecureBoot.Base.Words

/-!
# Flash behind a register port

`SpiPort` is any register block: what a read of each offset answers, and how
reads and writes move its state. `Serves` says that a port answers one
`read_flash` transaction: every poll within its spin budget, without error,
and with the given bytes.
-/

namespace SecureBoot

open Words

structure SpiPort (σ : Type) where
  read : Nat → σ → Word × σ
  write : Nat → Word → σ → σ

namespace SpiPort

variable {σ : Type} (port : SpiPort σ)

/-- The four register writes of `start_flash_read`. -/
def start (offset total : Word) (q : σ) : σ :=
  port.write 0x08 0x1 (port.write 0x08 0x2 (port.write 0x04 total (port.write 0x00 offset q)))

/-! ## Polling -/

/-- STATUS reads until one is `ready`, with at most `budget` before it that say `wait`. -/
inductive Answers (ready wait : Word → Bool) : Nat → σ → σ → Prop
  | ready (budget : Nat) (q : σ) (h : ready (port.read 0x0C q).1 = true) :
      Answers ready wait budget q (port.read 0x0C q).2
  | wait (budget : Nat) (q q' : σ) (h : wait (port.read 0x0C q).1 = true)
      (hrest : Answers ready wait budget (port.read 0x0C q).2 q') :
      Answers ready wait (budget + 1) q q'

def dataReady (status : Word) : Bool := status &&& 0x4 = 0 && status &&& 0x8 ≠ 0
def dataWait (status : Word) : Bool := status &&& 0x4 = 0 && status &&& 0x8 = 0
def doneReady (status : Word) : Bool := status &&& 0x2 ≠ 0
def doneWait (status : Word) : Bool := status &&& 0x2 = 0

/-- The data phase of a transaction with `n` bytes to go. -/
inductive Delivers (budget : Nat) : Nat → σ → List Byte → σ → Prop
  | nil (q : σ) : Delivers budget 0 q [] q
  | word (n : Nat) (q q₁ q' : σ) (bs : List Byte) (hn : 0 < n)
      (hpoll : port.Answers dataReady dataWait budget q q₁)
      (hrest : Delivers budget (n - 4) (port.read 0x10 q₁).2 bs q') :
      Delivers budget n q ((leBytes (port.read 0x10 q₁).1).take n ++ bs) q'

/-- One transaction: the bytes, then DONE. -/
def Serves (budget : Nat) (offset total : Word) (q : σ) (bs : List Byte) (q' : σ) : Prop :=
  ∃ q₁, port.Delivers budget total.toNat (port.start offset total q) bs q₁ ∧
    port.Answers doneReady doneWait budget q₁ q'

variable {port}

theorem Delivers.length_eq {budget n : Nat} {q q' : σ} {bs : List Byte}
    (h : port.Delivers budget n q bs q') : bs.length = n := by
  induction h with
  | nil q => rfl
  | word n q q₁ q' bs hn hpoll hrest ih =>
      rw [List.length_append, leBytes_take_length, ih]
      omega

theorem Serves.length_eq {budget : Nat} {offset total : Word} {q q' : σ} {bs : List Byte}
    (h : port.Serves budget offset total q bs q') : bs.length = total.toNat := by
  obtain ⟨q₁, hdata, _⟩ := h
  exact hdata.length_eq

/-! ## The same port inside a larger state -/

/-- On its register window the outer port acts on one component of `τ`. -/
structure Embeds {τ : Type} (inner : SpiPort σ) (outer : SpiPort τ) (put : σ → τ) : Prop where
  read : ∀ a q, a < 0x1000 → outer.read a (put q) = ((inner.read a q).1, put (inner.read a q).2)
  write : ∀ a value q, a < 0x1000 → outer.write a value (put q) = put (inner.write a value q)

variable {τ : Type} {inner : SpiPort σ} {outer : SpiPort τ} {put : σ → τ}

theorem Answers.lift (h : Embeds inner outer put) {ready wait : Word → Bool} {budget : Nat}
    {q q' : σ} (ha : inner.Answers ready wait budget q q') :
    outer.Answers ready wait budget (put q) (put q') := by
  induction ha with
  | ready budget q hr =>
      have hfst := congrArg Prod.fst (h.read 0x0C q (by decide))
      have hsnd := congrArg Prod.snd (h.read 0x0C q (by decide))
      have hready : outer.Answers ready wait budget (put q) (outer.read 0x0C (put q)).2 :=
        Answers.ready budget (put q) (by rw [hfst]; exact hr)
      rwa [hsnd] at hready
  | wait budget q q' hw _ ih =>
      have hfst := congrArg Prod.fst (h.read 0x0C q (by decide))
      have hsnd := congrArg Prod.snd (h.read 0x0C q (by decide))
      exact Answers.wait budget (put q) (put q') (by rw [hfst]; exact hw) (by rw [hsnd]; exact ih)

theorem Delivers.lift (h : Embeds inner outer put) {budget n : Nat} {q q' : σ} {bs : List Byte}
    (hd : inner.Delivers budget n q bs q') : outer.Delivers budget n (put q) bs (put q') := by
  induction hd with
  | nil q => exact Delivers.nil (put q)
  | word n q q₁ q' bs hn hpoll _ ih =>
      have hfst := congrArg Prod.fst (h.read 0x10 q₁ (by decide))
      have hsnd := congrArg Prod.snd (h.read 0x10 q₁ (by decide))
      have hword : outer.Delivers budget n (put q)
          ((leBytes (outer.read 0x10 (put q₁)).1).take n ++ bs) (put q') :=
        Delivers.word n (put q) (put q₁) (put q') bs hn (hpoll.lift h) (by rw [hsnd]; exact ih)
      rwa [hfst] at hword

theorem Serves.lift (h : Embeds inner outer put) {budget : Nat} {offset total : Word} {q q' : σ}
    {bs : List Byte} (hs : inner.Serves budget offset total q bs q') :
    outer.Serves budget offset total (put q) bs (put q') := by
  obtain ⟨q₁, hdata, hdone⟩ := hs
  refine ⟨put q₁, ?_, hdone.lift h⟩
  have hstart : outer.start offset total (put q) = put (inner.start offset total q) := by
    simp only [start, h.write _ _ _ (show 0x00 < 0x1000 by decide),
      h.write _ _ _ (show 0x04 < 0x1000 by decide), h.write _ _ _ (show 0x08 < 0x1000 by decide)]
  rw [hstart]
  exact hdata.lift h

end SpiPort

end SecureBoot
