import SecureBoot.Base.Exec
import SecureBoot.Base.Memory
import SecureBoot.Sha256.Code

/-!
# The machine BootROM runs on

One hart, its DRAM, the machine-mode registers the boot code touches, and
whatever sits behind the memory-mapped windows. `Platform` is the hardware as
software sees it: an arbitrary device state `δ` whose answers may depend on
everything that was done to it before.
-/

namespace SecureBoot.Bootrom

/-- How a run leaves BootROM. An access fault continues at `mtvec`. -/
inductive Exit where
  | kernel
  | recovery
  | fault (address : Nat)
  | halted
deriving DecidableEq, Repr

/-! ## Physical memory protection -/

structure Pmp where
  cfg : Vector Byte 16
  addr : Vector DWord 16
deriving DecidableEq, Repr

/-- Every register zero. -/
def Pmp.zero : Pmp := ⟨Vector.replicate 16 0, Vector.replicate 16 0⟩

def Pmp.locked (pmp : Pmp) (i : Nat) : Bool := (pmp.cfg.toList.getD i 0).getLsbD 7

/-- All entries OFF and unlocked, as a reset leaves them; permissions and addresses are as they may
be. -/
def Pmp.Off (pmp : Pmp) : Prop :=
  ∀ i < 16, pmp.locked i = false ∧ (pmp.cfg.toList.getD i 0).extractLsb' 3 2 = 0#2

instance (pmp : Pmp) : Decidable pmp.Off := inferInstanceAs (Decidable (∀ i < 16, _ ∧ _))

theorem Pmp.zero_off : Pmp.zero.Off := by decide

def Pmp.tor (pmp : Pmp) (i : Nat) : Bool := (pmp.cfg.toList.getD i 0).extractLsb' 3 2 == 1#2

/-- A locked entry ignores the write; so does the address below a locked TOR entry. -/
def Pmp.writeAddr (pmp : Pmp) (i : Nat) (value : DWord) : Pmp :=
  if pmp.locked i || (pmp.locked (i + 1) && pmp.tor (i + 1)) then pmp
  else { pmp with addr := pmp.addr.setIfInBounds i value }

def Pmp.writeCfgByte (pmp : Pmp) (i : Nat) (value : Byte) : Pmp :=
  if pmp.locked i then pmp else { pmp with cfg := pmp.cfg.setIfInBounds i value }

/-- `pmpcfg0` holds entries 0 to 7, `pmpcfg2` entries 8 to 15. -/
def Pmp.writeCfg (pmp : Pmp) (first : Nat) (value : DWord) : Pmp :=
  (List.range 8).foldl (fun pmp i => pmp.writeCfgByte (first + i) (Words.byteAt value i)) pmp

/-! ## Machine and platform -/

structure Machine (δ : Type) where
  mem : Memory
  dev : δ
  mtvec : Nat
  mepc : Nat
  mstatus : DWord
  a0 : DWord
  a1 : DWord
  pmp : Pmp

/-- What compiled code keeps on the stack below `bootrom_main`: the source fixes the contents of
the hash context only. -/
structure Frames (δ : Type) where
  /-- the context object before `sha256_init` -/
  stale : δ → Sha256.Sha256Ctx
  /-- a frame byte read as data while the frames are in use -/
  during : δ → Nat → Byte
  /-- a frame byte after `sha256_hash` has returned -/
  after : δ → Nat → Byte

structure Platform (δ : Type) where
  ram : Nat → Bool
  mmio : Nat → Bool
  read8 : Nat → δ → Byte × δ
  write8 : Nat → Byte → δ → δ
  read32 : Nat → δ → Word × δ
  write32 : Nat → Word → δ → δ
  read64 : Nat → δ → DWord × δ
  write64 : Nat → DWord → δ → δ
  hartid : DWord
  frames : Frames δ

abbrev Boot (δ : Type) := EStateM Exit (Machine δ)

variable {δ : Type} (p : Platform δ)

/-! ## Accesses -/

/-- A byte load by the C code: DRAM, a peripheral window, or an access fault. -/
def loadByte (a : Nat) : Boot δ Byte := fun s =>
  if p.ram a then .ok (s.mem a) s
  else if p.mmio a then .ok (p.read8 a s.dev).1 { s with dev := (p.read8 a s.dev).2 }
  else .error (.fault a) s

def storeByte (a : Nat) (b : Byte) : Boot δ Unit := fun s =>
  if p.ram a then .ok () { s with mem := s.mem.store a b }
  else if p.mmio a then .ok () { s with dev := p.write8 a b s.dev }
  else .error (.fault a) s

def loadBytes (a : Nat) : Nat → Boot δ (List Byte)
  | 0 => pure []
  | n + 1 => do
      let b ← loadByte p a
      let bs ← loadBytes (a + 1) n
      pure (b :: bs)

def storeBytes (a : Nat) : List Byte → Boot δ Unit
  | [] => pure ()
  | b :: bs => do
      storeByte p a b
      storeBytes (a + 1) bs

/-- A 32-bit field of a packed structure. -/
def loadWord (a : Nat) : Boot δ Word := do
  let bs ← loadBytes p a 4
  pure (Words.leWord (bs.getD 0 0) (bs.getD 1 0) (bs.getD 2 0) (bs.getD 3 0))

def loadHalf (a : Nat) : Boot δ (BitVec 16) := do
  let bs ← loadBytes p a 2
  pure (bs.getD 1 0 ++ bs.getD 0 0)

def readRegister (a : Nat) : Boot δ Word := fun s =>
  .ok (p.read32 a s.dev).1 { s with dev := (p.read32 a s.dev).2 }

def writeRegister (a : Nat) (value : Word) : Boot δ Unit := fun s =>
  .ok () { s with dev := p.write32 a value s.dev }

def readRegister64 (a : Nat) : Boot δ DWord := fun s =>
  .ok (p.read64 a s.dev).1 { s with dev := (p.read64 a s.dev).2 }

def writeRegister64 (a : Nat) (value : DWord) : Boot δ Unit := fun s =>
  .ok () { s with dev := p.write64 a value s.dev }

end SecureBoot.Bootrom
