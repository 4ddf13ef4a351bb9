import SecureBoot.Base.Clocked
import SecureBoot.Base.Words

/-!
# The Ed25519 block

`Ed25519VerifierSim.sv` behind the register map of `ed25519_verifier.scala`.
Non-blocking assignments read the registers of before the edge; among several
to one register the last one wins. The host side is three files, a flag for
each `$fopen`, and the script, which is a parameter.
-/

namespace SecureBoot.Ed25519

open Words

/-! ## Registers and host files -/

/-- What the three fixed paths under `/tmp` hold. -/
structure Files where
  manifest : List Byte
  signature : List Byte
  publicKey : List Byte
deriving DecidableEq, Repr

/-- Whether the three `$fopen` calls of a START succeed. -/
structure Opens where
  manifest : Bool
  signature : Bool
  publicKey : Bool
deriving DecidableEq, Repr

def Opens.all : Opens := ⟨true, true, true⟩

structure Verifier where
  buffer : Vector Byte 192
  idx : Nat
  count : Word
  status : Word
  files : Files
deriving DecidableEq, Repr

structure Pins where
  reset : Bool
  clear : Bool
  dataValid : Bool
  dataWord : Word
  start : Bool
  opens : Opens

/-! ## The clock edge -/

def slice (buffer : Vector Byte 192) (startIdx nbytes : Nat) : List Byte :=
  (buffer.toList.drop startIdx).take nbytes

/-- `write_file` reports a failed `$fopen` in the status register only. -/
def writeFile (opened : Bool) (v : Verifier) (files : Files) : Verifier :=
  if opened then { v with files := files } else { v with status := 0x00000008 }

def storeWord (buffer : Vector Byte 192) (idx : Nat) (word : Word) : Vector Byte 192 :=
  (((buffer.setIfInBounds idx (byteAt word 0)).setIfInBounds (idx + 1)
    (byteAt word 1)).setIfInBounds (idx + 2) (byteAt word 2)).setIfInBounds (idx + 3)
    (byteAt word 3)

/-- The `if (data_valid)` block. -/
def acceptWord (v : Verifier) (word : Word) : Verifier :=
  if v.idx ≤ 188 then
    { v with
      buffer := storeWord v.buffer v.idx word
      idx := v.idx + 4
      count := BitVec.ofNat 32 (v.idx + 4) }
  else { v with status := 0x00000008 }

/-- The `if (start)` block: `old` holds the registers of before the edge, `v` the assignments
already scheduled. -/
def runScript (script : Files → Bool) (opens : Opens) (old v : Verifier) : Verifier :=
  if old.idx ≠ 192 then { v with status := 0x00000008 }
  else
    let v := writeFile opens.manifest v { v.files with manifest := slice old.buffer 0 96 }
    let v := writeFile opens.signature v { v.files with signature := slice old.buffer 96 64 }
    let v := writeFile opens.publicKey v { v.files with publicKey := slice old.buffer 160 32 }
    if script v.files then { v with status := 0x00000006 } else { v with status := 0x0000000A }

def posedge (script : Files → Bool) (v : Verifier) (p : Pins) : Verifier :=
  if p.reset || p.clear then { v with idx := 0, count := 0, status := 0 }
  else
    let next := if p.dataValid then acceptWord v p.dataWord else v
    if p.start then runScript script p.opens v { next with status := 0x00000001 } else next

/-! ## The register map -/

/-- What the bus can ask of the block in one cycle; reads leave the pins low. -/
inductive Access where
  | idle
  | cmd (data : Word)
  | data (word : Word)
deriving DecidableEq, Repr

def pins (opens : Opens) : Access → Pins
  | .idle => ⟨false, false, false, 0, false, opens⟩
  | .cmd data => ⟨false, data.getLsbD 0, false, 0, data.getLsbD 1, opens⟩
  | .data word => ⟨false, false, true, word, false, opens⟩

/-- One bus cycle with working host files. -/
def step (script : Files → Bool) (v : Verifier) (a : Access) : Verifier :=
  posedge script v (pins .all a)

def ERROR (status : Word) : Bool := status.getLsbD 3
def PASS (status : Word) : Bool := status.getLsbD 2

def powerOnReset (script : Files → Bool) (v : Verifier) : Verifier :=
  posedge script v { pins .all .idle with reset := true }

theorem step_clear (script : Files → Bool) (v : Verifier) (data : Word)
    (hclear : data.getLsbD 0 = true) :
    step script v (.cmd data) = { v with idx := 0, count := 0, status := 0 } := by
  simp only [step, posedge, pins, hclear, Bool.or_true, if_true]

theorem step_start (script : Files → Bool) (v : Verifier) (data : Word)
    (hclear : data.getLsbD 0 = false) (hstart : data.getLsbD 1 = true) :
    step script v (.cmd data) = runScript script .all v { v with status := 0x00000001 } := by
  simp only [step, posedge, pins, hclear, hstart, Bool.or_false, if_true, Bool.false_eq_true,
    if_false]

theorem step_nop (script : Files → Bool) (v : Verifier) (data : Word)
    (hclear : data.getLsbD 0 = false) (hstart : data.getLsbD 1 = false) :
    step script v (.cmd data) = v := by
  simp only [step, posedge, pins, hclear, hstart, Bool.or_false, Bool.false_eq_true, if_false]

@[simp] theorem step_idle (script : Files → Bool) (v : Verifier) : step script v .idle = v := by
  simp [step, posedge, pins]

@[simp] theorem step_data (script : Files → Bool) (v : Verifier) (word : Word) :
    step script v (.data word) = acceptWord v word := by
  simp [step, posedge, pins]

/-! ## The buffer is the stream since CLEAR -/

/-- The words written to DATA since the last CLEAR or reset. -/
def sinceClear (accesses : List Access) : List Word :=
  accesses.foldl
    (fun ws a =>
      match a with
      | .idle => ws
      | .cmd data => if data.getLsbD 0 then [] else ws
      | .data word => ws ++ [word]) []

/-- The three files a 192-byte stream is split into. -/
def Files.ofStream (bs : List Byte) : Files :=
  ⟨bs.take 96, (bs.drop 96).take 64, (bs.drop 160).take 32⟩

theorem Files.ofStream_append (m s k : List Byte) (hm : m.length = 96) (hs : s.length = 64)
    (hk : k.length = 32) : Files.ofStream (m ++ s ++ k) = ⟨m, s, k⟩ := by
  have hms : (m ++ s).length = 160 := by
    rw [List.length_append, hm, hs]
  have hrest : (m ++ s ++ k).drop 96 = s ++ k := by
    rw [List.append_assoc, List.drop_left' hm]
  have hkey : k.take 32 = k := List.take_of_length_le (by omega)
  rw [Files.ofStream, hrest, List.drop_left' hms, List.take_left' hs, hkey, List.append_assoc,
    List.take_left' hm]

theorem storeWord_toList (buffer : Vector Byte 192) (idx : Nat) (word : Word)
    (h : idx + 4 ≤ 192) :
    (storeWord buffer idx word).toList =
      buffer.toList.take idx ++ leBytes word ++ buffer.toList.drop (idx + 4) := by
  have hlen : (buffer.toList.take idx).length = idx := by
    simp
    omega
  have hsplit : buffer.toList = buffer.toList.take idx ++ buffer.toList.drop idx :=
    (List.take_append_drop ..).symm
  match hd : buffer.toList.drop idx, (by simp : (buffer.toList.drop idx).length = 192 - idx) with
  | a :: b :: c :: d :: post, _ =>
      have hpost : buffer.toList.drop (idx + 4) = post := by
        rw [← List.drop_drop, hd]
        rfl
      rw [hpost]
      simp only [storeWord, Vector.toList_setIfInBounds]
      rw [hsplit, hd]
      simp [hlen, leBytes]
  | [], hl | [_], hl | [_, _], hl | [_, _, _], hl =>
      simp at hl
      omega

/-- The registers hold the stream `bs` written since CLEAR, up to the buffer's size. -/
structure Holds (v : Verifier) (bs : List Byte) : Prop where
  whole : bs.length % 4 = 0
  idx : v.idx = min bs.length 192
  buffer : v.buffer.toList.take v.idx = bs.take 192

/-- PASS is shown only for a full buffer that the script accepted. -/
structure Sound (script : Files → Bool) (v : Verifier) (bs : List Byte) : Prop extends
    Holds v bs where
  pass : PASS v.status = true → 192 ≤ bs.length ∧ script (.ofStream (bs.take 192)) = true

theorem Holds.buffer_full {v : Verifier} {bs : List Byte} (h : Holds v bs) (hidx : v.idx = 192) :
    v.buffer.toList = bs.take 192 := by
  have hb := h.buffer
  rwa [hidx, List.take_of_length_le (by simp)] at hb

theorem Sound.of_reset {script : Files → Bool} {v : Verifier} (hidx : v.idx = 0)
    (hstatus : v.status = 0) : Sound script v [] := by
  refine { whole := rfl, idx := hidx, buffer := by simp [hidx], pass := ?_ }
  intro hp
  rw [hstatus] at hp
  exact absurd hp (by decide)

/-- A data write either appends its word or reports the overflow. -/
theorem Sound.acceptWord {script : Files → Bool} {v : Verifier} {bs : List Byte}
    (h : Sound script v bs) (word : Word) :
    Sound script (acceptWord v word) (bs ++ leBytes word) := by
  have hwhole := h.whole
  have hidx := h.idx
  unfold Ed25519.acceptWord
  by_cases hroom : v.idx ≤ 188
  · have hlt : bs.length < 192 := by omega
    have htake : (bs ++ leBytes word).take 192 = bs ++ leBytes word :=
      List.take_of_length_le (by rw [List.length_append, leBytes_length]; omega)
    rw [if_pos hroom]
    refine { whole := ?_, idx := ?_, buffer := ?_, pass := ?_ }
    · rw [List.length_append, leBytes_length]
      omega
    · rw [List.length_append, leBytes_length]
      show v.idx + 4 = _
      omega
    · show (storeWord v.buffer v.idx word).toList.take (v.idx + 4) = _
      have hfront : (v.buffer.toList.take v.idx ++ leBytes word).length = v.idx + 4 := by
        simp
        omega
      rw [htake, storeWord_toList _ _ _ (by omega), List.take_append_of_le_length (by omega),
        ← hfront, List.take_length, h.buffer, List.take_of_length_le (by omega)]
    · intro hp
      have := (h.pass hp).1
      omega
  · have hfull : 192 ≤ bs.length := by omega
    rw [if_neg hroom]
    refine { whole := ?_, idx := ?_, buffer := ?_, pass := ?_ }
    · rw [List.length_append, leBytes_length]
      omega
    · rw [List.length_append, leBytes_length]
      show v.idx = _
      omega
    · rw [List.take_append_of_le_length hfull]
      exact h.buffer
    · intro hp
      exact absurd hp (by simp [PASS])

theorem runScript_short (script : Files → Bool) (opens : Opens) (old v : Verifier)
    (h : old.idx ≠ 192) : runScript script opens old v = { v with status := 0x00000008 } := by
  rw [runScript, if_pos h]

/-- With working files the script reads the buffer, and its verdict is the status. -/
theorem runScript_full (script : Files → Bool) (old v : Verifier) (h : old.idx = 192) :
    runScript script .all old v =
      { v with
        files := .ofStream old.buffer.toList
        status := if script (.ofStream old.buffer.toList) then 0x00000006 else 0x0000000A } := by
  rw [runScript, if_neg (by simp [h])]
  simp only [writeFile, Opens.all, if_true, Files.ofStream, slice, List.drop_zero]
  split <;> simp_all

/-- A START leaves the stream alone and reports the verdict. -/
theorem Sound.start {script : Files → Bool} {v : Verifier} {bs : List Byte}
    (h : Sound script v bs) :
    Sound script (runScript script .all v { v with status := 0x00000001 }) bs := by
  by_cases hfull : v.idx = 192
  · have hbuffer := h.buffer_full hfull
    have hlen : 192 ≤ bs.length := by
      have hidx := h.idx
      omega
    rw [runScript_full _ _ _ hfull, hbuffer]
    refine { whole := h.whole, idx := h.idx, buffer := h.buffer, pass := ?_ }
    intro hp
    cases hok : script (.ofStream (bs.take 192)) with
    | true => exact ⟨hlen, rfl⟩
    | false => simp [PASS, hok] at hp
  · rw [runScript_short _ _ _ _ hfull]
    refine { whole := h.whole, idx := h.idx, buffer := h.buffer, pass := ?_ }
    intro hp
    exact absurd hp (by simp [PASS])

/-- A START on exactly 192 bytes hands them to the script. -/
theorem Sound.delivers {script : Files → Bool} {v : Verifier} {bs : List Byte}
    (h : Sound script v bs) (hlen : bs.length = 192) :
    v.buffer.toList = bs ∧ step script v (.cmd 2) =
      { v with
        files := .ofStream bs
        status := if script (.ofStream bs) then 0x00000006 else 0x0000000A } := by
  have hidx := h.idx
  have hfull : v.idx = 192 := by omega
  have hbuffer : v.buffer.toList = bs := by
    rw [h.buffer_full hfull, List.take_of_length_le (by omega)]
  refine ⟨hbuffer, ?_⟩
  rw [step_start _ _ _ (by decide) (by decide), runScript_full _ _ _ hfull, hbuffer]

/-- The bytes written to DATA since the last CLEAR or reset. -/
def stream (accesses : List Access) : List Byte := (sinceClear accesses).flatMap leBytes

theorem sinceClear_concat (past : List Access) (a : Access) :
    sinceClear (past ++ [a]) =
      match a with
      | .idle => sinceClear past
      | .cmd data => if data.getLsbD 0 then [] else sinceClear past
      | .data word => sinceClear past ++ [word] := by
  rw [sinceClear, List.foldl_append]
  rfl

/-- One bus cycle keeps the registers in step with the stream. -/
theorem Sound.access {script : Files → Bool} (past : List Access) (v : Verifier) (a : Access)
    (h : Sound script v (stream past)) : Sound script (step script v a) (stream (past ++ [a])) := by
  rw [stream, sinceClear_concat]
  cases a with
  | idle => simpa [stream] using h
  | data word => simpa [stream] using h.acceptWord word
  | cmd data =>
      cases hclear : data.getLsbD 0 with
      | true =>
          rw [step_clear _ _ _ hclear]
          simp only [hclear, if_true, List.flatMap_nil]
          exact Sound.of_reset rfl rfl
      | false =>
          simp only [hclear, Bool.false_eq_true, if_false]
          cases hstart : data.getLsbD 1 with
          | true =>
              rw [step_start _ _ _ hclear hstart]
              exact h.start
          | false =>
              rw [step_nop _ _ _ hclear hstart]
              exact h

theorem run_sound (script : Files → Bool) (v : Verifier) (accesses : List Access) :
    Sound script (Clocked.run (step script) (powerOnReset script v) accesses)
      (stream accesses) :=
  Clocked.run_history (R := fun past v => Sound script v (stream past)) _
    (Sound.of_reset rfl rfl) Sound.access accesses

/-! ## The register contract -/

/-- PASS vouches for exactly the 192 bytes written since CLEAR, all of them in the buffer, and a
START on any other number of words ends with ERROR. A write with both command bits is a CLEAR. -/
structure Contract (script : Files → Bool) (accesses : List Access) (v : Verifier) : Prop where
  pass : PASS v.status = true →
    (stream accesses).length = 192 ∧ v.buffer.toList = stream accesses ∧
      script (.ofStream (stream accesses)) = true
  start : ∀ data : Word, data.getLsbD 0 = false → data.getLsbD 1 = true →
    (stream accesses).length ≠ 192 →
      ERROR (step script v (.cmd data)).status = true ∧
        PASS (step script v (.cmd data)).status = false

/-- More words than the buffer takes, behind a stream whose first 192 bytes verify. -/
def Overrun (script : Files → Bool) (accesses : List Access) : Prop :=
  192 < (stream accesses).length ∧ script (.ofStream ((stream accesses).take 192)) = true

/-- On an overrun the pending START answers PASS. -/
theorem Sound.overrun_pass {script : Files → Bool} {v : Verifier} {bs : List Byte}
    (h : Sound script v bs) (hlen : 192 < bs.length)
    (hok : script (.ofStream (bs.take 192)) = true) (data : Word)
    (hclear : data.getLsbD 0 = false) (hstart : data.getLsbD 1 = true) :
    PASS (step script v (.cmd data)).status = true := by
  have hidx := h.idx
  have hfull : v.idx = 192 := by omega
  rw [step_start _ _ _ hclear hstart, runScript_full _ _ _ hfull, h.buffer_full hfull]
  simp [hok, PASS]

/-- A START that finds the wrong number of words, and no overrun, fails. -/
theorem Sound.start_rejects {script : Files → Bool} {v : Verifier} {bs : List Byte}
    (h : Sound script v bs) (hlen : bs.length ≠ 192)
    (hno : ¬ (192 < bs.length ∧ script (.ofStream (bs.take 192)) = true)) (data : Word)
    (hclear : data.getLsbD 0 = false) (hstart : data.getLsbD 1 = true) :
    ERROR (step script v (.cmd data)).status = true ∧
      PASS (step script v (.cmd data)).status = false := by
  have hidx := h.idx
  rw [step_start _ _ _ hclear hstart]
  by_cases hfull : v.idx = 192
  · have hrej : script (.ofStream (bs.take 192)) ≠ true := fun hok => hno ⟨by omega, hok⟩
    rw [runScript_full _ _ _ hfull, h.buffer_full hfull]
    simp [hrej, ERROR, PASS]
  · rw [runScript_short _ _ _ _ hfull]
    simp [ERROR, PASS]

/-- After every sequence of accesses since reset the contract holds exactly when no overrun is
pending. -/
theorem contract_iff_not_overrun (script : Files → Bool) (v : Verifier)
    (accesses : List Access) :
    Contract script accesses (Clocked.run (step script) (powerOnReset script v) accesses) ↔
      ¬ Overrun script accesses := by
  have h := run_sound script v accesses
  constructor
  · intro hc h
    rcases h with ⟨hlen, hok⟩
    have hpass := h.overrun_pass hlen hok 2 (by decide) (by decide)
    have hfail := (hc.start 2 (by decide) (by decide) (by omega)).2
    rw [hpass] at hfail
    exact absurd hfail (by decide)
  · intro hno
    refine ⟨?_, fun data hclear hstart hlen => h.start_rejects hlen hno data hclear hstart⟩
    intro hp
    obtain ⟨hlen, hok⟩ := h.pass hp
    have hexact : (stream accesses).length = 192 := by
      have hle : ¬ 192 < (stream accesses).length := fun hlt => hno ⟨hlt, hok⟩
      omega
    have hidx := h.idx
    have htake : (stream accesses).take 192 = stream accesses :=
      List.take_of_length_le (by omega)
    rw [htake] at hok
    exact ⟨hexact, by rw [h.buffer_full (by omega), htake], hok⟩

/-- `manifest.bin`, `signature.bin` and `public_key.bin` of `metadata/`: a valid signature. -/
def metadata : Files where
  manifest :=
    ofHex 32 0x534f42540100000001000000d81e000000000080000000800000000000000000 ++
    ofHex 32 0x80e43015164829cc7f5431635fa68b433d002847435082b5db6714b476661378 ++
    ofHex 32 0x0000000000000000000000000000000000000000000000000000000000000000
  signature :=
    ofHex 32 0x101565abd63a5cacf7a1b59cb88f17c635d86c6d5c4a0c2d55191d61e7831bcc ++
    ofHex 32 0x777f9a0edef71ff3ec18411c70ee335c4eaa23e0cdd33ebbd7eb24b0a18c2a07
  publicKey := ofHex 32 0x11428eba96704e0de3e745aa5ddf6ca35e6728b95436918244c3706008784d16

/-- The 48 words of the signed image and one more. -/
def overrunWrites : List Access :=
  (leWords (metadata.manifest ++ metadata.signature ++ metadata.publicKey) ++ [0]).map .data

/-- Forty-nine words and a START show PASS. -/
theorem overrunWrites_contract_fails :
    ¬ Contract (fun files => decide (files = metadata)) overrunWrites
      (Clocked.run (step fun files => decide (files = metadata))
        (powerOnReset (fun files => decide (files = metadata))
          ⟨Vector.replicate 192 0, 0, 0, 0, ⟨[], [], []⟩⟩) overrunWrites) := by
  intro hc
  have h := run_sound (fun files => decide (files = metadata))
    ⟨Vector.replicate 192 0, 0, 0, 0, ⟨[], [], []⟩⟩ overrunWrites
  have hlen : (stream overrunWrites).length = 196 := by decide +kernel
  have hok : decide (Files.ofStream ((stream overrunWrites).take 192) = metadata) = true := by
    decide +kernel
  have hpass := h.overrun_pass (by omega) hok 2 (by decide) (by decide)
  have hfail := (hc.start 2 (by decide) (by decide) (by omega)).2
  rw [hpass] at hfail
  exact absurd hfail (by decide)

end SecureBoot.Ed25519
