import SecureBoot.Hardware.HostFiles

/-!
# Two simulations on one host

The paths under `/tmp` are fixed, so the START of two simulators write and
verify the same three files. A START is four steps here, and a schedule says
whose step is next.
-/

namespace SecureBoot.Ed25519

open Words

/-! ## Steps -/

inductive Sim where
  | first
  | second
deriving DecidableEq, Repr

/-- A simulator inside START with a full buffer. -/
structure Start where
  buffer : Vector Byte 192
  pc : Nat
  status : Word

def Start.begin (buffer : Vector Byte 192) : Start := ⟨buffer, 0, 0x1⟩

/-- The three `write_file` calls, then the script. -/
def Start.step (script : Files → Bool) (files : Files) (t : Start) : Files × Start :=
  match t.pc with
  | 0 => ({ files with manifest := slice t.buffer 0 96 }, { t with pc := 1 })
  | 1 => ({ files with signature := slice t.buffer 96 64 }, { t with pc := 2 })
  | 2 => ({ files with publicKey := slice t.buffer 160 32 }, { t with pc := 3 })
  | 3 => (files, { t with pc := 4, status := if script files then 0x6 else 0xA })
  | _ => (files, t)

structure Host where
  files : Files
  start : Sim → Start

def Host.step (script : Files → Bool) (h : Host) (i : Sim) : Host where
  files := ((h.start i).step script h.files).1
  start := fun j => if j = i then ((h.start i).step script h.files).2 else h.start j

/-- Both simulators at the begin of their START. -/
def Host.begin (files : Files) (buffer : Sim → Vector Byte 192) : Host where
  files := files
  start := fun i => .begin (buffer i)

/-- The host after the steps of a schedule. -/
def Host.run (script : Files → Bool) (h : Host) (schedule : List Sim) : Host :=
  Clocked.run (Host.step script) h schedule

@[simp] theorem Host.step_files (script : Files → Bool) (h : Host) (i : Sim) :
    (h.step script i).files = ((h.start i).step script h.files).1 := rfl

@[simp] theorem Host.step_start_self (script : Files → Bool) (h : Host) (i : Sim) :
    (h.step script i).start i = ((h.start i).step script h.files).2 := if_pos rfl

theorem Host.step_start_of_ne (script : Files → Bool) (h : Host) {i j : Sim} (hj : j ≠ i) :
    (h.step script i).start j = h.start j := if_neg hj

/-- Four steps without the other simulator between them are a START of the block. -/
theorem alone_runScript (script : Files → Bool) (v : Verifier) (hidx : v.idx = 192) (i : Sim) :
    let h := (Host.begin v.files fun _ => v.buffer).run script [i, i, i, i]
    h.files = (posedge script v (startPins .all)).files ∧
      (h.start i).status = (posedge script v (startPins .all)).status := by
  have hstatus := start_status script .all v
  rw [if_neg (by simp [hidx]), staged_all] at hstatus
  refine ⟨?_, ?_⟩
  · rw [posedge_start, runScript, if_neg (by simp [hidx])]
    simp only [Host.run, Clocked.run_cons, Clocked.run_nil, Host.step_files, Host.step_start_self]
    split <;> rfl
  · rw [hstatus]
    simp only [Host.run, Clocked.run_cons, Clocked.run_nil, Host.step_files, Host.step_start_self]
    rfl

/-! ## Who wrote a file last -/

/-- The files in the order in which a START writes them. -/
inductive Part where
  | manifest
  | signature
  | publicKey
deriving DecidableEq, Repr

namespace Part

def index : Part → Nat
  | manifest => 0
  | signature => 1
  | publicKey => 2

def content (files : Files) : Part → List Byte
  | manifest => files.manifest
  | signature => files.signature
  | publicKey => files.publicKey

/-- What a simulator writes into the file. -/
def own (buffer : Vector Byte 192) (part : Part) : List Byte :=
  part.content (.ofStream buffer.toList)

theorem files_ext {files files' : Files}
    (h : ∀ part : Part, part.content files = part.content files') : files = files' := by
  have hmanifest := h .manifest
  have hsignature := h .signature
  have hkey := h .publicKey
  cases files
  cases files'
  simp only [content] at hmanifest hsignature hkey
  rw [hmanifest, hsignature, hkey]

theorem index_lt (part : Part) : part.index < 3 := by
  cases part <;> decide

end Part

/-- The simulator that wrote the file last; `past` has the newest step first. -/
def lastWriter (part : Part) : (past : List Sim) → Option Sim
  | [] => none
  | i :: past => if past.count i = part.index then some i else lastWriter part past

theorem lastWriter_concat (part : Part) (past : List Sim) (i : Sim) :
    lastWriter part (past ++ [i]).reverse =
      if past.count i = part.index then some i else lastWriter part past.reverse := by
  rw [List.reverse_append, List.reverse_singleton, List.singleton_append, lastWriter,
    List.count_reverse]

/-- A simulator that is past the write of a file leaves it written by someone. -/
theorem lastWriter_isSome (part : Part) (past : List Sim) (i : Sim)
    (h : part.index < past.count i) : ∃ j, lastWriter part past = some j := by
  induction past with
  | nil => simp at h
  | cons j past ih =>
      rw [lastWriter]
      by_cases hj : past.count j = part.index
      · exact ⟨j, if_pos hj⟩
      · rw [if_neg hj]
        refine ih ?_
        by_cases hij : j = i
        · rw [hij] at h hj
          rw [List.count_cons_self] at h
          omega
        · rwa [List.count_cons_of_ne hij] at h

/-- One file after the steps `past`. -/
def written (files : Files) (buffer : Sim → Vector Byte 192) (past : List Sim) (part : Part) :
    List Byte :=
  ((lastWriter part past.reverse).map fun i => part.own (buffer i)).getD (part.content files)

theorem written_of_some {files : Files} {buffer : Sim → Vector Byte 192} {past : List Sim}
    {part : Part} {i : Sim} (h : lastWriter part past.reverse = some i) :
    written files buffer past part = part.own (buffer i) := by
  rw [written, h]
  rfl

/-- The files that a script run after the steps `past` reads. -/
def seen (files : Files) (buffer : Sim → Vector Byte 192) (past : List Sim) : Files where
  manifest := written files buffer past .manifest
  signature := written files buffer past .signature
  publicKey := written files buffer past .publicKey

theorem seen_content (files : Files) (buffer : Sim → Vector Byte 192) (past : List Sim)
    (part : Part) : part.content (seen files buffer past) = written files buffer past part := by
  cases part <;> rfl

/-! ## One step -/

section Step

variable (script : Files → Bool) (files : Files) (t : Start)

theorem Start.step_content (part : Part) : part.content (t.step script files).1 =
    if t.pc = part.index then part.own t.buffer else part.content files := by
  obtain ⟨buffer, pc, status⟩ := t
  rcases pc with _ | _ | _ | _ | pc <;> cases part <;> simp [Start.step, Part.index] <;> rfl

theorem Start.step_pc : (t.step script files).2.pc = if t.pc < 4 then t.pc + 1 else t.pc := by
  obtain ⟨buffer, pc, status⟩ := t
  rcases pc with _ | _ | _ | _ | pc
  · rfl
  · rfl
  · rfl
  · rfl
  · simp [Start.step]

theorem Start.step_buffer : (t.step script files).2.buffer = t.buffer := by
  obtain ⟨buffer, pc, status⟩ := t
  rcases pc with _ | _ | _ | _ | pc <;> rfl

theorem Start.step_status : (t.step script files).2.status =
    if t.pc = 3 then (if script files then 0x6 else 0xA) else t.status := by
  obtain ⟨buffer, pc, status⟩ := t
  rcases pc with _ | _ | _ | _ | pc <;> rfl

end Step

/-! ## Runs -/

/-- The host after the steps `past`, from `files` and the two buffers. -/
structure Tracks (script : Files → Bool) (files : Files) (buffer : Sim → Vector Byte 192)
    (past : List Sim) (h : Host) : Prop where
  pc : ∀ i, (h.start i).pc = min 4 (past.count i)
  kept : ∀ i, (h.start i).buffer = buffer i
  content : h.files = seen files buffer past
  status : ∀ earlier i later, past = earlier ++ i :: later → earlier.count i = 3 →
    (h.start i).status = if script (seen files buffer earlier) then 0x6 else 0xA

theorem Tracks.begin (script : Files → Bool) (files : Files) (buffer : Sim → Vector Byte 192) :
    Tracks script files buffer [] (Host.begin files buffer) where
  pc := fun _ => rfl
  kept := fun _ => rfl
  content := rfl
  status := by
    intro earlier i later hpast _
    simp at hpast

/-- Where a list with a new last element is split, the split is at the end or inside. -/
theorem concat_eq_split {α : Type} {past earlier later : List α} {i j : α}
    (h : past ++ [j] = earlier ++ i :: later) :
    (earlier = past ∧ i = j) ∨ ∃ rest, past = earlier ++ i :: rest := by
  rcases List.eq_nil_or_concat later with rfl | ⟨rest, k, rfl⟩
  · obtain ⟨hpast, hlast⟩ := List.append_inj' h rfl
    exact Or.inl ⟨hpast.symm, (List.singleton_inj.mp hlast).symm⟩
  · rw [List.concat_eq_append, ← List.cons_append, ← List.append_assoc] at h
    exact Or.inr ⟨rest, (List.append_inj' h rfl).1⟩

theorem Tracks.step {script : Files → Bool} {files : Files} {buffer : Sim → Vector Byte 192}
    {past : List Sim} {h : Host} (ht : Tracks script files buffer past h) (j : Sim) :
    Tracks script files buffer (past ++ [j]) (h.step script j) where
  pc := by
    intro i
    have hpc := ht.pc i
    by_cases hi : i = j
    · subst hi
      rw [Host.step_start_self, Start.step_pc, hpc, List.count_append, List.count_singleton_self]
      split <;> omega
    · rw [Host.step_start_of_ne script h hi, List.count_append,
        List.count_singleton, if_neg (by simpa using fun h => hi h.symm)]
      exact hpc
  kept := by
    intro i
    by_cases hi : i = j
    · subst hi
      rw [Host.step_start_self, Start.step_buffer]
      exact ht.kept i
    · rw [Host.step_start_of_ne script h hi]
      exact ht.kept i
  content := by
    refine Part.files_ext fun part => ?_
    have hlt := part.index_lt
    have hpc := ht.pc j
    rw [Host.step_files, Start.step_content, seen_content, written, lastWriter_concat, ht.kept j]
    by_cases hj : past.count j = part.index
    · rw [if_pos hj, if_pos (by omega)]
      rfl
    · rw [if_neg hj, if_neg (by omega), ht.content, seen_content, written]
  status := by
    intro earlier i later hpast hcount
    rcases concat_eq_split hpast with ⟨rfl, rfl⟩ | ⟨rest, hrest⟩
    · have hpc := ht.pc i
      rw [Host.step_start_self, Start.step_status, if_pos (by omega), ht.content]
    · have hstatus := ht.status earlier i rest hrest hcount
      by_cases hi : i = j
      · -- the fifth and later steps of a simulator change nothing
        subst hi
        have hpc := ht.pc i
        have hdone : 4 ≤ past.count i := by
          rw [hrest, List.count_append, List.count_cons_self, hcount]
          omega
        rw [Host.step_start_self, Start.step_status, if_neg (by omega)]
        exact hstatus
      · rw [Host.step_start_of_ne script h hi]
        exact hstatus

theorem tracks_run (script : Files → Bool) (files : Files) (buffer : Sim → Vector Byte 192)
    (schedule : List Sim) :
    Tracks script files buffer schedule ((Host.begin files buffer).run script schedule) :=
  Clocked.run_history _ (.begin script files buffer) (fun _ _ j ht => ht.step j) schedule

/-- The step number `n` of a simulator that made more of them. -/
theorem split_at_count (n : Nat) (schedule : List Sim) (i : Sim) (h : n < schedule.count i) :
    ∃ earlier later, schedule = earlier ++ i :: later ∧ earlier.count i = n := by
  induction schedule generalizing n with
  | nil => simp at h
  | cons j schedule ih =>
      by_cases hj : j = i
      · subst hj
        rw [List.count_cons_self] at h
        cases n with
        | zero => exact ⟨[], schedule, rfl, rfl⟩
        | succ n =>
            obtain ⟨earlier, later, heq, hcount⟩ := ih n (by omega)
            exact ⟨j :: earlier, later, by rw [heq, List.cons_append],
              by rw [List.count_cons_self, hcount]⟩
      · rw [List.count_cons_of_ne hj] at h
        obtain ⟨earlier, later, heq, hcount⟩ := ih n h
        exact ⟨j :: earlier, later, by rw [heq, List.cons_append],
          by rw [List.count_cons_of_ne hj, hcount]⟩

/-! ## Verdicts -/

/-- Ed25519 verification of the image in a buffer. -/
def valid (verify : Tools.Verify) (buffer : Vector Byte 192) : Bool :=
  verify (Part.publicKey.own buffer) (Part.manifest.own buffer) (Part.signature.own buffer)

/-- STATUS of every simulator that has finished is the verdict on its own buffer. -/
def OwnVerdicts (verify : Tools.Verify) (files : Files) (buffer : Sim → Vector Byte 192)
    (schedule : List Sim) : Prop :=
  ∀ i, 4 ≤ schedule.count i →
    (((Host.begin files buffer).run (Tools.hostScript verify) schedule).start i).status =
      if valid verify (buffer i) then 0x6 else 0xA

/-- Whenever a simulator runs the script, it was the last to write each of the three files. -/
def Undisturbed (schedule : List Sim) : Prop :=
  ∀ earlier i later, schedule = earlier ++ i :: later → earlier.count i = 3 →
    ∀ part, lastWriter part earlier.reverse = some i

/-- One step of the schedule against the condition. -/
def Undisturbed.At (earlier : List Sim) (i : Sim) : Prop :=
  earlier.count i = 3 → lastWriter .manifest earlier.reverse = some i ∧
    lastWriter .signature earlier.reverse = some i ∧ lastWriter .publicKey earlier.reverse = some i

instance (earlier : List Sim) (i : Sim) : Decidable (Undisturbed.At earlier i) :=
  inferInstanceAs (Decidable (_ → _))

theorem undisturbed_iff_at (schedule : List Sim) :
    Undisturbed schedule ↔
      ∀ n : Fin schedule.length, Undisturbed.At (schedule.take n) schedule[n] := by
  constructor
  · intro h n hcount
    have hlast := h (schedule.take n) schedule[n] (schedule.drop (n + 1)) (by simp) hcount
    exact ⟨hlast .manifest, hlast .signature, hlast .publicKey⟩
  · intro h earlier i later hsplit hcount part
    subst hsplit
    have hat : Undisturbed.At earlier i := by
      have hn := h ⟨earlier.length, by simp⟩
      simpa only [List.take_left, Fin.getElem_fin, List.getElem_append_right (Nat.le_refl _),
        Nat.sub_self, List.getElem_cons_zero] using hn
    obtain ⟨hmanifest, hsignature, hkey⟩ := hat hcount
    cases part with
    | manifest => exact hmanifest
    | signature => exact hsignature
    | publicKey => exact hkey

instance (schedule : List Sim) : Decidable (Undisturbed schedule) :=
  decidable_of_iff _ (undisturbed_iff_at schedule).symm

/-- A signed image, and beside it one with a change in a single part that is refused. -/
structure Discerning (verify : Tools.Verify) (good : Vector Byte 192)
    (bad : Part → Vector Byte 192) : Prop where
  accepts : valid verify good = true
  refuses : ∀ part, valid verify (bad part) = false
  rest : ∀ part part' : Part, part' ≠ part → part'.own (bad part) = part'.own good

theorem own_length (buffer : Vector Byte 192) :
    (Part.manifest.own buffer).length = 96 ∧ (Part.signature.own buffer).length = 64 ∧
      (Part.publicKey.own buffer).length = 32 := by
  simp [Part.own, Part.content, Files.ofStream]

theorem hostScript_of_own (verify : Tools.Verify) {files : Files} (buffer : Vector Byte 192)
    (h : ∀ part : Part, part.content files = part.own buffer) :
    Tools.hostScript verify files = valid verify buffer := by
  have heq : files = .ofStream buffer.toList := Part.files_ext h
  obtain ⟨hmanifest, hsignature, hkey⟩ := own_length buffer
  rw [heq]
  exact Tools.hostScript_eq verify _ hmanifest hsignature hkey

/-- What the script of a finished simulator read decides its STATUS. -/
theorem status_of_split (verify : Tools.Verify) (files : Files) (buffer : Sim → Vector Byte 192)
    {schedule earlier later : List Sim} {i : Sim} (hsplit : schedule = earlier ++ i :: later)
    (hcount : earlier.count i = 3) :
    (((Host.begin files buffer).run (Tools.hostScript verify) schedule).start i).status =
      if Tools.hostScript verify (seen files buffer earlier) then 0x6 else 0xA :=
  (tracks_run _ files buffer schedule).status earlier i later hsplit hcount

theorem ownVerdicts_of_undisturbed (verify : Tools.Verify) (files : Files)
    (buffer : Sim → Vector Byte 192) {schedule : List Sim} (h : Undisturbed schedule) :
    OwnVerdicts verify files buffer schedule := by
  intro i hdone
  obtain ⟨earlier, later, hsplit, hcount⟩ := split_at_count 3 schedule i hdone
  have hown : Tools.hostScript verify (seen files buffer earlier) = valid verify (buffer i) := by
    refine hostScript_of_own verify (buffer i) fun part => ?_
    rw [seen_content]
    exact written_of_some (h earlier i later hsplit hcount part)
  rw [status_of_split verify files buffer hsplit hcount, hown]

theorem undisturbed_of_ownVerdicts {verify : Tools.Verify} {files : Files} {schedule : List Sim}
    {good : Vector Byte 192} {bad : Part → Vector Byte 192} (hd : Discerning verify good bad)
    (h : ∀ buffer, OwnVerdicts verify files buffer schedule) : Undisturbed schedule := by
  intro earlier i later hsplit hcount part
  have hwritten : ∀ part : Part, ∃ j, lastWriter part earlier.reverse = some j := by
    intro part
    have hlt := part.index_lt
    refine lastWriter_isSome part _ i ?_
    rw [List.count_reverse]
    omega
  obtain ⟨j, hj⟩ := hwritten part
  by_cases hji : j = i
  · rw [hj, hji]
  · -- the simulator that is disturbed holds a refused image, the other one repairs it
    let buffer : Sim → Vector Byte 192 := fun k => if k = i then bad part else good
    have hseen : ∀ part' : Part, part'.content (seen files buffer earlier) = part'.own good := by
      intro part'
      obtain ⟨k, hk⟩ := hwritten part'
      rw [seen_content, written_of_some hk]
      by_cases hki : k = i
      · have hne : part' ≠ part := by
          intro heq
          rw [heq, hj] at hk
          exact hji ((Option.some.inj hk).trans hki)
        rw [show buffer k = bad part from if_pos hki]
        exact hd.rest part part' hne
      · rw [show buffer k = good from if_neg hki]
    have hdone : 4 ≤ schedule.count i := by
      rw [hsplit, List.count_append, List.count_cons_self, hcount]
      omega
    have hown := h buffer i hdone
    rw [status_of_split verify files buffer hsplit hcount, hostScript_of_own verify good hseen,
      hd.accepts, show buffer i = bad part from if_pos rfl, hd.refuses part] at hown
    cases hown

/-- The verdicts of a schedule are the simulators' own, whatever their buffers hold, exactly when
nobody writes a file between another's write and its script. -/
theorem ownVerdicts_iff (verify : Tools.Verify) (files : Files) (schedule : List Sim)
    {good : Vector Byte 192} {bad : Part → Vector Byte 192} (hd : Discerning verify good bad) :
    (∀ buffer, OwnVerdicts verify files buffer schedule) ↔ Undisturbed schedule :=
  ⟨undisturbed_of_ownVerdicts hd,
    fun h buffer => ownVerdicts_of_undisturbed verify files buffer h⟩

/-! ## The signed image and a blank one -/

/-- The buffer of a simulator that boots the signed image. -/
def metadataBuffer : Vector Byte 192 :=
  ⟨(metadata.manifest ++ metadata.signature ++ metadata.publicKey).toArray, by decide +kernel⟩

/-- The signed image with the first byte of one part inverted. -/
def tamperedBuffer : Part → Vector Byte 192
  | .manifest => metadataBuffer.set 0 0xAC
  | .signature => metadataBuffer.set 96 0xEF
  | .publicKey => metadataBuffer.set 160 0xEE

theorem verifyMetadata_discerning : Discerning verifyMetadata metadataBuffer tamperedBuffer where
  accepts := by decide +kernel
  refuses := by
    intro part
    cases part <;> decide +kernel
  rest := by
    intro part part' h
    cases part <;> cases part' <;> first | exact absurd rfl h | decide +kernel

/-- One simulator with the signed image, the other with zeros. -/
def twoBuffers : Sim → Vector Byte 192
  | .first => metadataBuffer
  | .second => Vector.replicate 192 0

/-- One after the other they show their own verdicts. -/
theorem sequential_ownVerdicts : OwnVerdicts verifyMetadata metadata twoBuffers
    [.first, .first, .first, .first, .second, .second, .second, .second] :=
  (ownVerdicts_iff verifyMetadata metadata _ verifyMetadata_discerning).mpr (by decide) twoBuffers

/-- The first stages the signed image before the second runs the script, and both show PASS. -/
theorem sharedFiles_crossTalk : ¬ OwnVerdicts verifyMetadata metadata twoBuffers
    [.second, .second, .second, .first, .first, .first, .second, .first] := by
  intro h
  have hverdict := h .second (by decide)
  revert hverdict
  decide +kernel

end SecureBoot.Ed25519
