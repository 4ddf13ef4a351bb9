import SecureBoot.Base.Memory
import SecureBoot.Hardware.SpiPort

/-!
# The ideal flash

What a flash behind the register port is for: a transaction answers with the
bytes from its address on, and every word is there when it is asked for.
-/

namespace SecureBoot

open Words

structure IdealFlash where
  addr : Word
  len : Word
  position : Nat
deriving DecidableEq, Repr

namespace IdealFlash

/-- STATUS always shows DONE and DATA_READY; START rewinds. -/
def port (flash : Memory) : SpiPort IdealFlash where
  read offset q :=
    if offset = 0x00 then (q.addr, q)
    else if offset = 0x04 then (q.len, q)
    else if offset = 0x0C then (0xA, q)
    else if offset = 0x10 then
      (flash.word (q.addr.toNat + q.position), { q with position := q.position + 4 })
    else (0, q)
  write offset value q :=
    if offset = 0x00 then { q with addr := value }
    else if offset = 0x04 then { q with len := value }
    else if offset = 0x08 && value.getLsbD 0 then { q with position := 0 }
    else q

variable (flash : Memory)

theorem port_start (offset total : Word) (q : IdealFlash) :
    (port flash).start offset total q = ⟨offset, total, 0⟩ := rfl

theorem read_status (q : IdealFlash) : ((port flash).read 0x0C q).1 = 0xA := rfl

theorem delivers (budget n : Nat) (q : IdealFlash) :
    ∃ q', (port flash).Delivers budget n q (flash.read (q.addr.toNat + q.position) n) q' := by
  induction n using Nat.strongRecOn generalizing q with
  | ind n ih =>
      by_cases hn : n = 0
      · subst hn
        exact ⟨q, .nil q⟩
      · obtain ⟨q', hrest⟩ := ih (n - 4) (by omega) { q with position := q.position + 4 }
        refine ⟨q', ?_⟩
        have hpoll : (port flash).Answers SpiPort.dataReady SpiPort.dataWait budget q q :=
          .ready budget q (by rw [read_status]; decide)
        rw [Memory.read_split, ← Memory.take_read, ← Memory.leBytes_word]
        exact .word n q q q' _ (by omega) hpoll hrest

/-- Every transaction is served at once with the bytes at its address. -/
theorem serves (budget : Nat) (offset total : Word) (q : IdealFlash) :
    ∃ q', (port flash).Serves budget offset total q (flash.read offset.toNat total.toNat) q' := by
  obtain ⟨q', hdata⟩ := delivers flash budget total.toNat ⟨offset, total, 0⟩
  refine ⟨q', q', ?_, .ready budget q' (by rw [read_status]; decide)⟩
  rw [port_start]
  exact hdata

end IdealFlash

end SecureBoot
