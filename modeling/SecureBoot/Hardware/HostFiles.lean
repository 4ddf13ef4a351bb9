import SecureBoot.Hardware.Ed25519

/-!
# The host script and its files

`verify_ed25519_from_files.py`, and a START with any of the three `$fopen` calls failing, on top of
whatever an earlier run has left in the files. PyNaCl's verification is a parameter.
-/

namespace SecureBoot.Tools

open Ed25519

/-- `VerifyKey(public_key).verify(message, signature)` returns. -/
abbrev Verify := (publicKey message signature : List Byte) → Bool

/-- The exit code of `main` on three existing files. -/
def verifyFromFiles (verify : Verify) (files : Files) : Nat :=
  if files.manifest.length ≠ 96 then 20
  else if files.signature.length ≠ 64 then 21
  else if files.publicKey.length ≠ 32 then 22
  else if verify files.publicKey files.manifest files.signature then 0
  else 30

/-- `rc == 0`. -/
def hostScript (verify : Verify) (files : Files) : Bool := verifyFromFiles verify files == 0

theorem hostScript_eq (verify : Verify) (files : Files) (hmanifest : files.manifest.length = 96)
    (hsignature : files.signature.length = 64) (hkey : files.publicKey.length = 32) :
    hostScript verify files = verify files.publicKey files.manifest files.signature := by
  rw [hostScript, verifyFromFiles, if_neg (by simpa using hmanifest),
    if_neg (by simpa using hsignature), if_neg (by simpa using hkey)]
  cases verify files.publicKey files.manifest files.signature <;> rfl

end SecureBoot.Tools

namespace SecureBoot.Ed25519

open Words

/-- A command write with only the START bit. -/
def startPins (opens : Opens) : Pins := pins opens (.cmd 0x2)

/-- What the script reads: the new bytes where the file could be opened, the old ones elsewhere. -/
def staged (opens : Opens) (v : Verifier) : Files where
  manifest := if opens.manifest then slice v.buffer 0 96 else v.files.manifest
  signature := if opens.signature then slice v.buffer 96 64 else v.files.signature
  publicKey := if opens.publicKey then slice v.buffer 160 32 else v.files.publicKey

theorem staged_all (v : Verifier) : staged .all v = .ofStream v.buffer.toList := by
  simp [staged, Opens.all, Files.ofStream, slice]

theorem posedge_start (script : Files → Bool) (opens : Opens) (v : Verifier) :
    posedge script v (startPins opens) = runScript script opens v { v with status := 0x1 } := rfl

theorem writeFile_files (opened : Bool) (v : Verifier) (files : Files) :
    (writeFile opened v files).files = if opened then files else v.files := by
  cases opened <;> rfl

/-- Whatever the opens did, the last assignment to the status register is the verdict on what the
files then hold. -/
theorem start_status (script : Files → Bool) (opens : Opens) (v : Verifier) :
    (posedge script v (startPins opens)).status =
      if v.idx ≠ 192 then 0x8 else if script (staged opens v) then 0x6 else 0xA := by
  rw [posedge_start, runScript]
  by_cases hidx : v.idx ≠ 192
  · rw [if_pos hidx, if_pos hidx]
  · rw [if_neg hidx, if_neg hidx, apply_ite Verifier.status]
    congr 2
    simp only [writeFile_files, staged]
    cases opens.manifest <;> cases opens.signature <;> cases opens.publicKey <;> rfl

/-- A START reports a file that cannot be opened, and PASS vouches for the block's own bytes. -/
structure FilesReported (script : Files → Bool) (opens : Opens) (v : Verifier) : Prop where
  error : opens ≠ .all → ERROR (posedge script v (startPins opens)).status = true ∧
    PASS (posedge script v (startPins opens)).status = false
  pass : PASS (posedge script v (startPins opens)).status = true →
    script (.ofStream v.buffer.toList) = true

/-- A file that cannot be opened goes unreported exactly when the buffer is full and the script
accepts what the files then hold. -/
theorem filesReported_iff (script : Files → Bool) (opens : Opens) (v : Verifier) :
    FilesReported script opens v ↔
      (v.idx = 192 → opens ≠ .all → script (staged opens v) = false) := by
  have hstatus := start_status script opens v
  constructor
  · intro h hidx hopens
    cases hverdict : script (staged opens v) with
    | false => rfl
    | true =>
        rw [if_neg (by simp [hidx]), if_pos hverdict] at hstatus
        have hpass := (h.error hopens).2
        rw [hstatus] at hpass
        cases hpass
  · intro h
    by_cases hidx : v.idx = 192
    · rw [if_neg (by simp [hidx])] at hstatus
      cases hverdict : script (staged opens v) with
      | false =>
          rw [hverdict] at hstatus
          refine ⟨fun _ => ?_, fun hpass => ?_⟩
          · rw [hstatus]
            exact ⟨rfl, rfl⟩
          · rw [hstatus] at hpass
            cases hpass
      | true =>
          have hall : opens = .all := by
            by_cases hopens : opens = .all
            · exact hopens
            · rw [h hidx hopens] at hverdict
              cases hverdict
          rw [hall, staged_all] at hverdict
          exact ⟨fun hopens => absurd hall hopens, fun _ => hverdict⟩
    · rw [if_pos hidx] at hstatus
      refine ⟨fun _ => ?_, fun hpass => ?_⟩
      · rw [hstatus]
        exact ⟨rfl, rfl⟩
      · rw [hstatus] at hpass
        cases hpass

/-- A full buffer of zeros over the files of an earlier boot. -/
def staleVerifier : Verifier where
  buffer := Vector.replicate 192 0
  idx := 192
  count := 192
  status := 0
  files := metadata

/-- PyNaCl on this one message. -/
def verifyMetadata : Tools.Verify := fun publicKey message signature =>
  decide (publicKey = metadata.publicKey ∧ message = metadata.manifest ∧
    signature = metadata.signature)

/-- No file can be opened, the script reads the files of the earlier boot, and STATUS shows PASS. -/
theorem staleFiles_unreported :
    ¬ FilesReported (Tools.hostScript verifyMetadata) ⟨false, false, false⟩ staleVerifier := by
  intro h
  have hpass := (h.error (by decide)).2
  have hverdict : Tools.hostScript verifyMetadata (staged ⟨false, false, false⟩ staleVerifier) =
      true := by
    decide +kernel
  rw [start_status, hverdict] at hpass
  cases hpass

end SecureBoot.Ed25519
