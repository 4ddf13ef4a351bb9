import SecureBoot.Bootrom.Trace

/-!
# The exchange of `read_flash_words`

What the function reads from the SPI registers and stores, for every sequence
of replies.
-/

namespace SecureBoot.Bootrom

open Words Exec

variable {δ : Type} (p : Platform δ)

/-! ## Polls of the data phase -/

/-- A pass of the data loop that goes on: no ERROR, and either no word yet, or a word that is then
read from DATA. -/
inductive Poll where
  | wait (status : Word) (error : status &&& SPI_ERROR = 0) (empty : status &&& SPI_DATA_READY = 0)
  | word (status : Word) (error : status &&& SPI_ERROR = 0)
      (ready : status &&& SPI_DATA_READY ≠ 0) (value : Word)

/-- The words read from DATA, in order. -/
def words : List Poll → List Word
  | [] => []
  | .wait _ _ _ :: polls => words polls
  | .word _ _ _ value :: polls => value :: words polls

/-- Byte `i` of the buffer is byte `i mod 4` of word `i div 4`; what the words do not reach is not
stored. -/
def received (total : Nat) (ws : List Word) : List Byte :=
  (List.range (min total (4 * ws.length))).map fun i => byteAt (ws.getD (i / 4) 0) (i % 4)

/-- The accesses of these passes with `bytesRead` bytes stored before. -/
def transcript (output total : Nat) : Nat → List Poll → List MmioEvent
  | _, [] => []
  | bytesRead, .wait status _ _ :: polls =>
      .read32 SPI_STATUS status :: transcript output total bytesRead polls
  | bytesRead, .word status _ _ value :: polls =>
      .read32 SPI_STATUS status :: .read32 SPI_DATA value ::
        (p.storeEvents (output + bytesRead) ((leBytes value).take (total - bytesRead)) ++
          transcript output total (bytesRead + min 4 (total - bytesRead)) polls)

@[simp] theorem received_length (total : Nat) (ws : List Word) :
    (received total ws).length = min total (4 * ws.length) := by
  simp [received]

theorem received_eq_take (total : Nat) (ws : List Word) :
    received total ws = (ws.flatMap leBytes).take total := by
  have hall : ∀ ws : List Word, ws.flatMap leBytes =
      (List.range (4 * ws.length)).map fun i => byteAt (ws.getD (i / 4) 0) (i % 4) := by
    intro ws
    induction ws with
    | nil => rfl
    | cons w ws ih =>
        rw [List.flatMap_cons, List.length_cons, Nat.mul_succ, Nat.add_comm, List.range_add,
          List.map_append, ih, List.map_map]
        congr 1
        apply List.map_congr_left
        intro i _
        simp only [Function.comp]
        rw [Nat.add_div_left i (by omega), Nat.add_mod_left, List.getD_cons_succ]
  rw [hall, ← List.map_take, List.take_range]
  rfl

theorem received_cons (total : Nat) (w : Word) (ws : List Word) :
    received total (w :: ws) = (leBytes w).take total ++ received (total - min 4 total) ws := by
  rw [received_eq_take, received_eq_take, List.flatMap_cons, List.take_append, leBytes_length]
  congr 2
  omega

/-! ## Outcomes -/

/-- Words that `n` bytes take. -/
def wordsFor (n : Nat) : Nat := (n + 3) / 4

/-- The ways `read_flash_words` can go on `total` bytes. -/
inductive Exchange (output total : Nat) (s : Logged δ) :
    EStateM.Result Exit (Logged δ) Unit → Prop
  /-- All words came, then DONE. -/
  | returned (polls : List Poll) (waits : List Word) (done : Word) (s' : Logged δ)
      (count : (words polls).length = wordsFor total)
      (patience : polls.length ≤ wordsFor total * (MAX_SPIN + 1))
      (waiting : ∀ status ∈ waits, status &&& SPI_DONE = 0)
      (patient : waits.length ≤ MAX_SPIN)
      (finished : done &&& SPI_DONE ≠ 0)
      (progress : Progress p output (received total (words polls))
        (transcript p output total 0 polls ++ (waits ++ [done]).map (.read32 SPI_STATUS)) s s') :
      Exchange output total s (.ok () s')
  /-- The last STATUS reads were refused. -/
  | recovered (polls : List Poll) (refused : List Word) (s₁ : Logged δ)
      (count : (words polls).length ≤ wordsFor total)
      (patience : polls.length + refused.length ≤
        wordsFor total * (MAX_SPIN + 1) + (MAX_SPIN + 1))
      (progress : Progress p output (received total (words polls))
        (transcript p output total 0 polls ++ refused.map (.read32 SPI_STATUS)) s s₁) :
      Exchange output total s (.error .recovery (recoveryState p.logged SR_LOAD_KERNEL s₁))
  /-- The buffer is not all there. Until then it is a run for the bytes below `x`. -/
  | faulted (polls : List Poll) (x : Nat) (s' : Logged δ)
      (unmapped : Unmapped p output total x) (reached : x - output < 4 * (words polls).length)
      (progress : Progress p output ((received total (words polls)).take (x - output))
        (transcript p output (x - output) 0 polls) s s') :
      Exchange output total s (.error (.fault x) s')

/-! ## The data phase -/

/-- A return of the data loop from `bytesRead` bytes and `spin` waits on. -/
structure DataReturned (output total bytesRead spin : Nat) (polls : List Poll)
    (s s' : Logged δ) : Prop where
  count : (words polls).length = wordsFor (total - bytesRead)
  patience : polls.length + spin ≤ wordsFor (total - bytesRead) * (MAX_SPIN + 1) ∨
    polls = [] ∧ total ≤ bytesRead
  progress : Progress p (output + bytesRead) (received (total - bytesRead) (words polls))
    (transcript p output total bytesRead polls) s s'

/-- An exit of the data loop. -/
inductive DataLeft (output total bytesRead spin : Nat) (s : Logged δ) :
    Exit → Logged δ → Prop
  | recovered (polls : List Poll) (status : Word) (s₁ : Logged δ)
      (count : (words polls).length < wordsFor (total - bytesRead))
      (patience : polls.length + 1 + spin ≤ wordsFor (total - bytesRead) * (MAX_SPIN + 1))
      (progress : Progress p (output + bytesRead) (received (total - bytesRead) (words polls))
        (transcript p output total bytesRead polls ++ [.read32 SPI_STATUS status]) s s₁) :
      DataLeft output total bytesRead spin s .recovery
        (recoveryState p.logged SR_LOAD_KERNEL s₁)
  | faulted (polls : List Poll) (x : Nat) (s' : Logged δ)
      (unmapped : Unmapped p (output + bytesRead) (total - bytesRead) x)
      (reached : x - (output + bytesRead) < 4 * (words polls).length)
      (progress : Progress p (output + bytesRead)
        ((received (total - bytesRead) (words polls)).take (x - (output + bytesRead)))
        (transcript p output (x - output) bytesRead polls) s s') :
      DataLeft output total bytesRead spin s (.fault x) s'

variable {p} {output total bytesRead spin : Nat} {s s₁ s' : Logged δ}

theorem DataReturned.wait {status : Word} {polls : List Poll} (herror : status &&& SPI_ERROR = 0)
    (hempty : status &&& SPI_DATA_READY = 0) (hlt : bytesRead < total)
    (hread : Progress p (output + bytesRead) [] [.read32 SPI_STATUS status] s s₁)
    (h : DataReturned p output total bytesRead (spin + 1) polls s₁ s') :
    DataReturned p output total bytesRead spin (.wait status herror hempty :: polls) s s' where
  count := h.count
  patience := by
    rcases h.patience with hle | ⟨_, hge⟩
    · rw [List.length_cons]
      exact .inl (by omega)
    · omega
  progress := hread.before h.progress

theorem DataLeft.wait {status : Word} {e : Exit} (herror : status &&& SPI_ERROR = 0)
    (hempty : status &&& SPI_DATA_READY = 0)
    (hread : Progress p (output + bytesRead) [] [.read32 SPI_STATUS status] s s₁)
    (h : DataLeft p output total bytesRead (spin + 1) s₁ e s') :
    DataLeft p output total bytesRead spin s e s' := by
  cases h with
  | recovered polls refused s₂ count patience progress =>
      refine .recovered (.wait status herror hempty :: polls) refused s₂ count ?_
        (hread.before progress)
      rw [List.length_cons]
      omega
  | faulted polls x s' unmapped reached progress =>
      exact .faulted (.wait status herror hempty :: polls) x s' unmapped reached
        (hread.before progress)

theorem wordsFor_succ {n : Nat} (hn : 0 < n) : wordsFor n = wordsFor (n - min 4 n) + 1 := by
  unfold wordsFor
  omega

/-- The three accesses of a word in one step. -/
theorem Progress.word {status value : Word} {s₂ s₃ : Logged δ}
    (hread : Progress p (output + bytesRead) [] [.read32 SPI_STATUS status] s s₁)
    (hdata : Progress p (output + bytesRead) [] [.read32 SPI_DATA value] s₁ s₂)
    {bs : List Byte} {es : List MmioEvent} (hstore : Progress p (output + bytesRead) bs es s₂ s₃) :
    Progress p (output + bytesRead) bs (.read32 SPI_STATUS status :: .read32 SPI_DATA value :: es)
      s s₃ :=
  hread.before (hdata.before hstore)

theorem DataReturned.word {status value : Word} {polls : List Poll}
    (herror : status &&& SPI_ERROR = 0) (hready : status &&& SPI_DATA_READY ≠ 0)
    (hlt : bytesRead < total) (hspin : spin ≤ MAX_SPIN)
    (hstore : Progress p (output + bytesRead) ((leBytes value).take (total - bytesRead))
      (.read32 SPI_STATUS status :: .read32 SPI_DATA value ::
        p.storeEvents (output + bytesRead) ((leBytes value).take (total - bytesRead))) s s₁)
    (h : DataReturned p output total (bytesRead + min 4 (total - bytesRead)) 0 polls s₁ s') :
    DataReturned p output total bytesRead spin (.word status herror hready value :: polls)
      s s' := by
  have hcount := wordsFor_succ (show 0 < total - bytesRead by omega)
  have hrest : total - (bytesRead + min 4 (total - bytesRead)) =
      total - bytesRead - min 4 (total - bytesRead) := by omega
  have hlength := leBytes_take_length value (total - bytesRead)
  obtain ⟨count, patience, progress⟩ := h
  rw [hrest] at count patience progress
  refine ⟨?_, .inl ?_, ?_⟩
  · rw [words, List.length_cons, count, hcount]
  · rw [hcount, Nat.succ_mul, List.length_cons]
    rcases patience with hle | ⟨hnil, _⟩
    · omega
    · rw [hnil, List.length_nil]
      omega
  · rw [words, received_cons]
    exact hstore.trans (by rwa [hlength, Nat.add_assoc])

theorem DataLeft.word {status value : Word} {e : Exit}
    (herror : status &&& SPI_ERROR = 0) (hready : status &&& SPI_DATA_READY ≠ 0)
    (hlt : bytesRead < total) (hspin : spin ≤ MAX_SPIN)
    (hstore : Progress p (output + bytesRead) ((leBytes value).take (total - bytesRead))
      (.read32 SPI_STATUS status :: .read32 SPI_DATA value ::
        p.storeEvents (output + bytesRead) ((leBytes value).take (total - bytesRead))) s s₁)
    (h : DataLeft p output total (bytesRead + min 4 (total - bytesRead)) 0 s₁ e s') :
    DataLeft p output total bytesRead spin s e s' := by
  have hcount := wordsFor_succ (show 0 < total - bytesRead by omega)
  have hrest : total - (bytesRead + min 4 (total - bytesRead)) =
      total - bytesRead - min 4 (total - bytesRead) := by omega
  have hlength := leBytes_take_length value (total - bytesRead)
  cases h with
  | recovered polls refused s₂ count patience progress =>
      rw [hrest] at count patience progress
      refine .recovered (.word status herror hready value :: polls) refused s₂ ?_ ?_ ?_
      · rw [words, List.length_cons, hcount]
        omega
      · rw [hcount, Nat.succ_mul, List.length_cons]
        omega
      · rw [words, received_cons]
        have h := hstore.trans (by rwa [hlength, Nat.add_assoc])
        simpa [transcript] using h
  | faulted polls x s' unmapped reached progress =>
      rcases unmapped with ⟨⟨hx, hx'⟩, hun⟩
      rw [hrest] at progress
      -- The fault is further on, so this word is a whole one.
      have hwhole : min 4 (total - bytesRead) = 4 := by omega
      have hwhole' : min 4 (x - output - bytesRead) = 4 := by omega
      have hall : ∀ n, min 4 n = 4 → (leBytes value).take n = leBytes value :=
        fun n hn => List.take_of_length_le (by rw [leBytes_length]; omega)
      have hsplit : (received (total - bytesRead) (value :: words polls)).take
          (x - (output + bytesRead)) = leBytes value ++
            (received (total - bytesRead - 4) (words polls)).take
              (x - (output + (bytesRead + 4))) := by
        rw [received_cons, List.take_append, hall _ hwhole, hwhole,
          List.take_of_length_le (by rw [leBytes_length]; omega), leBytes_length]
        congr 2
      have hevents : transcript p output (x - output) bytesRead
          (.word status herror hready value :: polls) = .read32 SPI_STATUS status ::
            .read32 SPI_DATA value :: (p.storeEvents (output + bytesRead) (leBytes value) ++
              transcript p output (x - output) (bytesRead + 4) polls) := by
        rw [transcript, hall _ hwhole', hwhole']
      rw [hall _ hwhole] at hstore
      rw [hwhole] at progress
      have h := hstore.trans (by rwa [leBytes_length, Nat.add_assoc])
      refine .faulted (.word status herror hready value :: polls) x s' ⟨⟨by omega, by omega⟩, hun⟩
        ?_ ?_
      · rw [words, List.length_cons]
        omega
      · rw [words, hsplit, hevents]
        exact h

/-- A refused poll is the last one. -/
theorem DataLeft.refused {status : Word} (hlt : bytesRead < total) (hspin : spin ≤ MAX_SPIN)
    (hread : Progress p (output + bytesRead) [] [.read32 SPI_STATUS status] s s₁) :
    DataLeft p output total bytesRead spin s .recovery
      (recoveryState p.logged SR_LOAD_KERNEL s₁) := by
  have hcount := wordsFor_succ (show 0 < total - bytesRead by omega)
  have hone : MAX_SPIN + 1 ≤ wordsFor (total - bytesRead) * (MAX_SPIN + 1) := by
    rw [hcount, Nat.succ_mul]
    omega
  have hnone : received (total - bytesRead) (words []) = [] := by simp [received, words]
  refine .recovered [] status s₁ (by rw [words, hcount]; exact Nat.succ_pos _) ?_ ?_
  · rw [List.length_nil]
    omega
  · rw [hnone]
    exact hread

theorem pollData_exchange (output total bytesRead spin : Nat) (s : Logged δ)
    (hspin : spin ≤ MAX_SPIN) :
    Wp (pollData p.logged output total bytesRead spin)
      (fun _ s' => ∃ polls, DataReturned p output total bytesRead spin polls s s')
      (DataLeft p output total bytesRead spin s) s := by
  induction bytesRead, spin using pollData.induct total generalizing s with
  | case2 bytesRead spin hge =>
      have hzero : total - bytesRead = 0 := by omega
      rw [pollData, if_neg hge]
      refine wp_of_ok (pure_apply () s) ⟨[], ?_, .inr ⟨rfl, by omega⟩, ?_⟩
      · rw [hzero]
        rfl
      · rw [hzero]
        exact .refl _ s
  | case1 bytesRead spin hlt ihSpin ihWord =>
      rw [pollData, if_pos hlt]
      refine (readRegister_progress (output + bytesRead) SPI_STATUS s).bind ?_
        fun _ _ h => h.elim
      intro status s₁ hread
      refine wp_ite (fun _ => ?_) fun herror => wp_ite (fun hempty => ?_) fun hready => ?_
      · exact wp_of_error (enterRecovery_eq p.logged _ s₁) (.refused hlt hspin hread)
      · refine wp_ite (fun _ => ?_) fun hmore => ?_
        · exact wp_of_error (enterRecovery_eq p.logged _ s₁) (.refused hlt hspin hread)
        · refine (ihSpin hmore s₁ (by omega)).mono ?_ ?_
          · intro _ s' h
            rcases h with ⟨polls, h⟩
            exact ⟨_, h.wait (of_not_not herror) hempty hlt hread⟩
          · exact fun _ _ h => h.wait (of_not_not herror) hempty hread
      · refine (readRegister_progress (output + bytesRead) SPI_DATA s₁).bind ?_
          fun _ _ h => h.elim
        intro value s₂ hdata
        refine (storeBytes_progress _ _ s₂).bind ?_ ?_
        · intro _ s₃ hstore
          have hword := hread.word hdata hstore
          refine (ihWord s₃ (Nat.zero_le _)).mono ?_ ?_
          · intro _ s' h
            rcases h with ⟨polls, h⟩
            exact ⟨_, h.word (of_not_not herror) hready hlt hspin hword⟩
          · exact fun _ _ h => h.word (of_not_not herror) hready hlt hspin hword
        · intro e s₃ h
          rcases h with ⟨k, hk, he, hun, hstore⟩
          rw [leBytes_take_length] at hk
          have hstop : output + bytesRead + k - (output + bytesRead) = k :=
            Nat.add_sub_cancel_left _ _
          have hbytes : output + bytesRead + k - output - bytesRead = k := by omega
          have hpart : ((leBytes value).take (total - bytesRead)).take k =
              (leBytes value).take k := by
            rw [List.take_take, Nat.min_eq_left (by omega)]
          have h := hread.word hdata hstore
          rw [he]
          refine .faulted [.word status (of_not_not herror) hready value] _ s₃
            ⟨⟨by omega, by omega⟩, hun⟩ ?_ ?_
          · rw [hstop, words, words, List.length_singleton]
            omega
          · rw [transcript, transcript, hstop, hbytes, words, words, received_cons, ← hpart,
              List.append_nil]
            simpa [received] using h

/-! ## Waiting for DONE -/

theorem pollDone_exchange (a spin : Nat) (s : Logged δ) (hspin : spin ≤ MAX_SPIN) :
    Wp (pollDone p.logged spin)
      (fun _ s' => ∃ (waits : List Word) (done : Word),
        (∀ status ∈ waits, status &&& SPI_DONE = 0) ∧
        waits.length + spin ≤ MAX_SPIN ∧ done &&& SPI_DONE ≠ 0 ∧
        Progress p a [] ((waits ++ [done]).map (.read32 SPI_STATUS)) s s')
      (fun e s' => ∃ (refused : List Word) (s₁ : Logged δ), e = .recovery ∧
        s' = recoveryState p.logged SR_LOAD_KERNEL s₁ ∧
        refused.length + spin ≤ MAX_SPIN + 1 ∧
        Progress p a [] (refused.map (.read32 SPI_STATUS)) s s₁) s := by
  induction spin using pollDone.induct generalizing s with
  | case1 spin ih =>
      rw [pollDone]
      refine (readRegister_progress a SPI_STATUS s).bind ?_ fun _ _ h => h.elim
      intro status s₁ hread
      refine wp_ite (fun hwait => wp_ite (fun _ => ?_) fun hmore => ?_) fun hdone => ?_
      · refine wp_of_error (enterRecovery_eq p.logged _ s₁) ⟨[status], s₁, rfl, rfl, ?_, hread⟩
        rw [List.length_singleton]
        omega
      · refine (ih hmore s₁ (by omega)).mono ?_ ?_
        · intro _ s' h
          rcases h with ⟨waits, done, hwaits, hlen, hdone, hprogress⟩
          refine ⟨status :: waits, done, ?_, ?_, hdone, hread.before hprogress⟩
          · intro w hw
            rcases List.mem_cons.mp hw with hw | hw
            · rw [hw]
              exact hwait
            · exact hwaits w hw
          · rw [List.length_cons]
            omega
        · intro e s' h
          rcases h with ⟨refused, s₂, he, hs, hlen, hprogress⟩
          refine ⟨status :: refused, s₂, he, hs, ?_, hread.before hprogress⟩
          rw [List.length_cons]
          omega
      · exact wp_of_ok (pure_apply () s₁)
          ⟨[], status, by simp, by simpa using hspin, hdone, hread⟩

/-! ## The whole function -/

theorem DataLeft.exchange {e : Exit} (h : DataLeft p output total 0 0 s e s') :
    Exchange p output total s (.error e s') := by
  cases h with
  | recovered polls status s₁ count patience progress =>
      refine .recovered polls [status] s₁ (Nat.le_of_lt count) ?_ progress
      exact Nat.le_trans patience (Nat.le_add_right _ _)
  | faulted polls x s' unmapped reached progress =>
      exact .faulted polls x s' unmapped reached progress

theorem readFlashWords_exchange (p : Platform δ) (output total : Nat) (s : Logged δ) :
    Exchange p output total s (readFlashWords p.logged output total s) := by
  refine Wp.result ?_
  refine (pollData_exchange output total 0 0 s (Nat.zero_le _)).bind ?_ fun _ _ h => h.exchange
  intro _ s₁ h
  rcases h with ⟨polls, count, patience, progress⟩
  have hpatience : polls.length ≤ wordsFor total * (MAX_SPIN + 1) := by
    rcases patience with hle | ⟨hnil, _⟩
    · exact hle
    · rw [hnil]
      exact Nat.zero_le _
  refine (pollDone_exchange (output + (received total (words polls)).length) 0 s₁
    (Nat.zero_le _)).mono ?_ ?_
  · intro _ s' h
    rcases h with ⟨waits, done, hwaits, hlen, hdone, hprogress⟩
    have hall := progress.trans hprogress
    rw [List.append_nil] at hall
    exact .returned polls waits done s' count hpatience hwaits hlen hdone hall
  · intro e s' h
    rcases h with ⟨refused, s₂, he, hs, hlen, hprogress⟩
    have hall := progress.trans hprogress
    rw [List.append_nil] at hall
    rw [he, hs]
    exact .recovered polls refused s₂ (Nat.le_of_eq count) (Nat.add_le_add hpatience hlen) hall

/-! ## What is in memory -/

/-- Memory with `count` bytes of `ws` in the DRAM part of the buffer. -/
def filled (p : Platform δ) (output count : Nat) (ws : List Word) (mem : Memory) : Memory :=
  fun x =>
    if p.ram x = true ∧ Within output count x then
      byteAt (ws.getD ((x - output) / 4) 0) ((x - output) % 4)
    else mem x

theorem stored_received (ws : List Word) (count : Nat) (mem : Memory) :
    p.stored output ((received total ws).take count) mem =
      filled p output (min count (min total (4 * ws.length))) ws mem := by
  have hlength : ((received total ws).take count).length =
      min count (min total (4 * ws.length)) := by
    rw [List.length_take, received_length]
  funext x
  unfold Platform.stored filled
  cases hram : p.ram x with
  | false => simp
  | true =>
      by_cases hx : Within output (min count (min total (4 * ws.length))) x
      · rw [if_pos rfl, if_pos ⟨rfl, hx⟩]
        rcases hx with ⟨h₁, h₂⟩
        rw [Memory.write_apply_of_inside _ _ _ _ h₁ (by rwa [hlength]), received, ← List.map_take,
          List.take_range, List.getD_eq_getElem?_getD, List.getElem?_map,
          List.getElem?_range (by omega)]
        rfl
      · rw [if_pos rfl, if_neg fun h => hx h.2, Memory.write_apply_of_outside]
        rw [hlength]
        unfold Within at hx
        omega

theorem stored_all (ws : List Word) (mem : Memory) :
    p.stored output (received total ws) mem =
      filled p output (min total (4 * ws.length)) ws mem := by
  have h : p.stored output ((received total ws).take total) mem =
      filled p output (min total (min total (4 * ws.length))) ws mem :=
    stored_received ws total mem
  rw [List.take_of_length_le (by rw [received_length]; omega)] at h
  rw [h]
  congr 1
  omega

/-- `read_flash_words` against every sequence of replies and every buffer. It returns with the
bytes of exactly the words it read, each read right after a STATUS that offered it, and DONE seen
last; or it enters recovery with a prefix stored; or it runs into an unmapped byte of the buffer,
after the accesses and with the bytes of a run that asks for what lies before it. -/
theorem readFlashWords_exact (p : Platform δ) (output total : Nat) (s : Logged δ) :
    (∃ (polls : List Poll) (waits : List Word) (done : Word) (s' : Logged δ),
      readFlashWords p.logged output total s = .ok () s' ∧
      (words polls).length = (total + 3) / 4 ∧
      (∀ status ∈ waits, status &&& SPI_DONE = 0) ∧ done &&& SPI_DONE ≠ 0 ∧
      s'.dev.2 = s.dev.2 ++
        (transcript p output total 0 polls ++ (waits ++ [done]).map (.read32 SPI_STATUS)) ∧
      s'.mem = filled p output total (words polls) s.mem ∧ s'.core = s.core) ∨
    (∃ (polls : List Poll) (refused : List Word) (s₁ : Logged δ),
      readFlashWords p.logged output total s =
        .error .recovery (recoveryState p.logged SR_LOAD_KERNEL s₁) ∧
      (words polls).length ≤ (total + 3) / 4 ∧
      s₁.dev.2 = s.dev.2 ++
        (transcript p output total 0 polls ++ refused.map (.read32 SPI_STATUS)) ∧
      s₁.mem = filled p output (min total (4 * (words polls).length)) (words polls) s.mem ∧
      s₁.core = s.core) ∨
    (∃ (polls : List Poll) (x : Nat) (s' : Logged δ),
      readFlashWords p.logged output total s = .error (.fault x) s' ∧
      Within output total x ∧ p.mapped x = false ∧
      s'.dev.2 = s.dev.2 ++ transcript p output (x - output) 0 polls ∧
      s'.mem = filled p output (x - output) (words polls) s.mem ∧ s'.core = s.core) := by
  have h := readFlashWords_exchange p output total s
  generalize readFlashWords p.logged output total s = result at h
  cases h with
  | returned polls waits done s' count patience waiting patient finished progress =>
      have hcount : min total (4 * (words polls).length) = total := by
        rw [count, wordsFor]
        omega
      have hmem := progress.mem
      rw [stored_all, hcount] at hmem
      exact .inl ⟨polls, waits, done, s', rfl, count, waiting, finished, progress.log, hmem,
        progress.core⟩
  | recovered polls refused s₁ count patience progress =>
      have hmem := progress.mem
      rw [stored_all] at hmem
      exact .inr (.inl ⟨polls, refused, s₁, rfl, count, progress.log, hmem, progress.core⟩)
  | faulted polls x s' unmapped reached progress =>
      have hcount : min (x - output) (min total (4 * (words polls).length)) = x - output := by
        have hin := unmapped.1.2
        omega
      have hmem := progress.mem
      rw [stored_received, hcount] at hmem
      exact .inr (.inr ⟨polls, x, s', rfl, unmapped.1, unmapped.2, progress.log, hmem,
        progress.core⟩)

end SecureBoot.Bootrom
