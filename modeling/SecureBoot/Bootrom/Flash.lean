import SecureBoot.Bootrom.Access
import SecureBoot.Hardware.SpiPort

/-!
# Reading flash from a peripheral that answers

`read_flash` into DRAM, when the port serves the transaction, is one write of
the served bytes.
-/

namespace SecureBoot.Bootrom

open Words Exec

variable {δ : Type} (p : Platform δ)

/-- The SPI registers as the software addresses them. -/
def Platform.spiPort : SpiPort δ where
  read a d := p.read32 (SPI_BASE + a) d
  write a value d := p.write32 (SPI_BASE + a) value d

theorem readStatus_eq (s : Machine δ) :
    readRegister p SPI_STATUS s =
      .ok (p.spiPort.read 0x0C s.dev).1 { s with dev := (p.spiPort.read 0x0C s.dev).2 } := rfl

theorem readData_eq (s : Machine δ) :
    readRegister p SPI_DATA s =
      .ok (p.spiPort.read 0x10 s.dev).1 { s with dev := (p.spiPort.read 0x10 s.dev).2 } := rfl

theorem startFlashRead_eq (offset total : Word) (s : Machine δ) :
    startFlashRead p offset total s = .ok () { s with dev := p.spiPort.start offset total s.dev } :=
  rfl

/-- Waiting polls only move the peripheral; the ready one lets the word through. -/
theorem pollData_answers (output total bytesRead spin budget : Nat) (s : Machine δ) (d' : δ)
    (hlt : bytesRead < total) (hbudget : spin + budget ≤ MAX_SPIN)
    (h : p.spiPort.Answers SpiPort.dataReady SpiPort.dataWait budget s.dev d') :
    pollData p output total bytesRead spin s =
      (readRegister p SPI_DATA >>= fun word =>
        storeBytes p (output + bytesRead) ((leBytes word).take (total - bytesRead)) >>= fun _ =>
        pollData p output total (bytesRead + min 4 (total - bytesRead)) 0)
          { s with dev := d' } := by
  generalize hq : s.dev = q at h
  induction h generalizing spin s with
  | ready budget q hready =>
      subst hq
      have hbits := hready
      simp only [SpiPort.dataReady, Bool.and_eq_true, decide_eq_true_eq] at hbits
      rw [pollData, if_pos hlt, bind_of_ok (readStatus_eq p s)]
      rw [if_neg (by simpa [SPI_ERROR] using hbits.1),
        if_neg (by simpa [SPI_DATA_READY] using hbits.2)]
  | wait budget q q' hwait _ ih =>
      subst hq
      have hbits := hwait
      simp only [SpiPort.dataWait, Bool.and_eq_true, decide_eq_true_eq] at hbits
      rw [pollData, if_pos hlt, bind_of_ok (readStatus_eq p s)]
      rw [if_neg (by simpa [SPI_ERROR] using hbits.1),
        if_pos (by simpa [SPI_DATA_READY] using hbits.2), if_neg (by omega),
        ih (spin + 1) _ (by omega) rfl]

theorem pollDone_answers (spin budget : Nat) (s : Machine δ) (d' : δ)
    (hbudget : spin + budget ≤ MAX_SPIN)
    (h : p.spiPort.Answers SpiPort.doneReady SpiPort.doneWait budget s.dev d') :
    pollDone p spin s = .ok () { s with dev := d' } := by
  generalize hq : s.dev = q at h
  induction h generalizing spin s with
  | ready budget q hready =>
      subst hq
      have hbits := hready
      simp only [SpiPort.doneReady, decide_eq_true_eq] at hbits
      rw [pollDone, bind_of_ok (readStatus_eq p s), if_neg (by simpa [SPI_DONE] using hbits),
        pure_apply]
  | wait budget q q' hwait _ ih =>
      subst hq
      have hbits := hwait
      simp only [SpiPort.doneWait, decide_eq_true_eq] at hbits
      rw [pollDone, bind_of_ok (readStatus_eq p s), if_pos (by simpa [SPI_DONE] using hbits),
        if_neg (by omega), ih (spin + 1) _ (by omega) rfl]

/-- The data phase stores the delivered bytes in order. -/
theorem pollData_delivers (output total bytesRead n : Nat) (s : Machine δ) (bs : List Byte)
    (d' : δ) (hn : bytesRead + n = total) (hram : p.RamRange output total)
    (h : p.spiPort.Delivers MAX_SPIN n s.dev bs d') :
    pollData p output total bytesRead 0 s =
      .ok () { s with mem := s.mem.write (output + bytesRead) bs, dev := d' } := by
  generalize hq : s.dev = q at h
  induction h generalizing bytesRead s with
  | nil q =>
      subst hq
      rw [pollData, if_neg (by omega), pure_apply, Memory.write_nil]
  | word n q q₁ q' bs hpos hpoll _ ih =>
      subst hq
      have htake : total - bytesRead = n := by omega
      generalize hw : (p.spiPort.read 0x10 q₁).1 = word at *
      generalize hq₂ : (p.spiPort.read 0x10 q₁).2 = q₂ at *
      have hlen := leBytes_take_length word n
      have hread : readRegister p SPI_DATA { s with dev := q₁ } =
          .ok word { s with dev := q₂ } := by
        rw [readData_eq, ← hw, ← hq₂]
      have hstore : storeBytes p (output + bytesRead) ((leBytes word).take n)
          { s with dev := q₂ } =
          .ok () { s with
            mem := s.mem.write (output + bytesRead) ((leBytes word).take n), dev := q₂ } :=
        storeBytes_ram p _ _ _ (by rw [hlen]; exact hram.mono (by omega) (by omega))
      have hsplit : s.mem.write (output + bytesRead) ((leBytes word).take n ++ bs) =
          (s.mem.write (output + bytesRead) ((leBytes word).take n)).write
            (output + (bytesRead + min 4 n)) bs := by
        rw [Memory.write_append, hlen, Nat.add_assoc]
      rw [pollData_answers p output total bytesRead 0 MAX_SPIN s q₁ (by omega) (by omega) hpoll,
        bind_of_ok hread, htake, bind_of_ok hstore, hsplit]
      exact ih (bytesRead + min 4 n) _ (by omega) rfl

/-- `read_flash` into DRAM returns with the served bytes in the buffer. -/
theorem readFlash_serves (offset total : Word) (output : Nat) (s : Machine δ) (bs : List Byte)
    (d' : δ) (hram : p.RamRange output total.toNat)
    (h : p.spiPort.Serves MAX_SPIN offset total s.dev bs d') :
    readFlash p offset total output s =
      .ok () { s with mem := s.mem.write output bs, dev := d' } := by
  obtain ⟨d₁, hdata, hdone⟩ := h
  rw [readFlash, bind_of_ok (startFlashRead_eq p offset total s), readFlashWords,
    bind_of_ok (pollData_delivers p output total.toNat 0 total.toNat _ bs d₁ (by omega) hram hdata)]
  exact pollDone_answers p 0 MAX_SPIN _ d' (by omega) hdone

/-! ## Only a port that answers -/

/-- Between `d` and `d'` the port answered a data loop with `bytesRead` bytes stored before and
`spin` polls waited. -/
def Answered (total bytesRead spin : Nat) (d d' : δ) : Prop :=
  (bytesRead < total → ∃ q₁ bs,
    p.spiPort.Answers SpiPort.dataReady SpiPort.dataWait (MAX_SPIN - spin) d q₁ ∧
    p.spiPort.Delivers MAX_SPIN (total - bytesRead - 4) (p.spiPort.read 0x10 q₁).2 bs d') ∧
  (total ≤ bytesRead → d' = d)

variable {p} in
theorem Answered.delivers {total bytesRead : Nat} {d d' : δ}
    (h : Answered p total bytesRead 0 d d') :
    ∃ bs, p.spiPort.Delivers MAX_SPIN (total - bytesRead) d bs d' := by
  by_cases hlt : bytesRead < total
  · obtain ⟨q₁, bs, hanswers, hdelivers⟩ := h.1 hlt
    exact ⟨_, .word _ d q₁ d' bs (by omega) hanswers hdelivers⟩
  · rw [h.2 (by omega), Nat.sub_eq_zero_of_le (by omega)]
    exact ⟨[], .nil d⟩

variable {p} in
theorem Answered.wait {total bytesRead spin : Nat} {d d' : δ} (hlt : bytesRead < total)
    (hspin : spin < MAX_SPIN) (hwait : SpiPort.dataWait (p.spiPort.read 0x0C d).1 = true)
    (h : Answered p total bytesRead (spin + 1) (p.spiPort.read 0x0C d).2 d') :
    Answered p total bytesRead spin d d' := by
  refine ⟨fun _ => ?_, fun hge => absurd hlt (by omega)⟩
  obtain ⟨q₁, bs, hanswers, hdelivers⟩ := h.1 hlt
  have hmore : p.spiPort.Answers SpiPort.dataReady SpiPort.dataWait
      (MAX_SPIN - (spin + 1) + 1) d q₁ := .wait _ d q₁ hwait hanswers
  rw [show MAX_SPIN - (spin + 1) + 1 = MAX_SPIN - spin by omega] at hmore
  exact ⟨q₁, bs, hmore, hdelivers⟩

variable {p} in
theorem Answered.word {total bytesRead spin : Nat} {d d' : δ} (hlt : bytesRead < total)
    (hready : SpiPort.dataReady (p.spiPort.read 0x0C d).1 = true)
    (h : Answered p total (bytesRead + min 4 (total - bytesRead)) 0
      (p.spiPort.read 0x10 (p.spiPort.read 0x0C d).2).2 d') :
    Answered p total bytesRead spin d d' := by
  refine ⟨fun _ => ?_, fun hge => absurd hlt (by omega)⟩
  obtain ⟨bs, hdelivers⟩ := h.delivers
  rw [show total - (bytesRead + min 4 (total - bytesRead)) = total - bytesRead - 4 by omega]
    at hdelivers
  exact ⟨_, bs, .ready _ d hready, hdelivers⟩

theorem enterRecovery_exits {α : Type} (reason : Word) (Q : α → Machine δ → Prop) (s : Machine δ) :
    Wp (enterRecovery p reason) Q (fun _ _ => True) s :=
  wp_of_error (enterRecovery_eq p reason s) trivial

/-- A data loop that returns was answered. -/
theorem pollData_answered (output total bytesRead spin : Nat) (s : Machine δ)
    (hspin : spin ≤ MAX_SPIN) (hram : p.RamRange output total) :
    Wp (pollData p output total bytesRead spin)
      (fun _ s' => Answered p total bytesRead spin s.dev s'.dev) (fun _ _ => True) s := by
  induction bytesRead, spin using pollData.induct total generalizing s with
  | case2 bytesRead spin hge =>
      rw [pollData, if_neg hge]
      exact wp_of_ok (pure_apply () s) ⟨fun hlt => absurd hlt hge, fun _ => rfl⟩
  | case1 bytesRead spin hlt ihSpin ihWord =>
      rw [pollData, if_pos hlt]
      refine wp_bind (wp_of_ok (readStatus_eq p s) ?_)
      refine wp_ite (fun _ => enterRecovery_exits p _ _ _) fun herror =>
        wp_ite (fun hempty => ?_) fun hready => ?_
      · refine wp_ite (fun _ => enterRecovery_exits p _ _ _) fun hmore => ?_
        have hwait : SpiPort.dataWait (p.spiPort.read 0x0C s.dev).1 = true := by
          simp only [SpiPort.dataWait, Bool.and_eq_true, decide_eq_true_eq]
          exact ⟨of_not_not herror, hempty⟩
        exact (ihSpin hmore _ (by omega)).mono
          (fun _ _ h => h.wait hlt (by omega) hwait) fun _ _ _ => trivial
      · have hoffer : SpiPort.dataReady (p.spiPort.read 0x0C s.dev).1 = true := by
          simp only [SpiPort.dataReady, Bool.and_eq_true, decide_eq_true_eq]
          exact ⟨of_not_not herror, hready⟩
        refine wp_bind (wp_of_ok (readData_eq p _) ?_)
        refine wp_bind (wp_of_ok (storeBytes_ram p _ _ _ ?_) ?_)
        · rw [leBytes_take_length]
          exact hram.mono (by omega) (by omega)
        · exact (ihWord _ (Nat.zero_le _)).mono (fun _ _ h => h.word hlt hoffer)
            fun _ _ _ => trivial

theorem pollDone_answered (spin : Nat) (s : Machine δ) (hspin : spin ≤ MAX_SPIN) :
    Wp (pollDone p spin)
      (fun _ s' => p.spiPort.Answers SpiPort.doneReady SpiPort.doneWait (MAX_SPIN - spin) s.dev
        s'.dev)
      (fun _ _ => True) s := by
  induction spin using pollDone.induct generalizing s with
  | case1 spin ih =>
      rw [pollDone]
      refine wp_bind (wp_of_ok (readStatus_eq p s) ?_)
      refine wp_ite (fun hwait => wp_ite (fun _ => enterRecovery_exits p _ _ _) fun hmore => ?_)
        fun hdone => ?_
      · refine (ih hmore _ (by omega)).mono (fun _ s' h => ?_) fun _ _ _ => trivial
        have hmore : p.spiPort.Answers SpiPort.doneReady SpiPort.doneWait
            (MAX_SPIN - (spin + 1) + 1) s.dev s'.dev :=
          .wait _ s.dev s'.dev (decide_eq_true hwait) h
        rwa [show MAX_SPIN - (spin + 1) + 1 = MAX_SPIN - spin by omega] at hmore
      · exact wp_of_ok (pure_apply () _) (.ready _ s.dev (decide_eq_true hdone))

/-- `read_flash` into DRAM returns only if the port serves the transaction, and stores what it
serves. -/
theorem readFlash_answered (offset total : Word) (output : Nat) (s s' : Machine δ)
    (hram : p.RamRange output total.toNat) (h : readFlash p offset total output s = .ok () s') :
    ∃ bs, p.spiPort.Serves MAX_SPIN offset total s.dev bs s'.dev ∧
      s'.mem = s.mem.write output bs := by
  have hserves : Wp (readFlash p offset total output)
      (fun _ s' => ∃ bs, p.spiPort.Serves MAX_SPIN offset total s.dev bs s'.dev)
      (fun _ _ => True) s := by
    refine wp_bind (wp_of_ok (startFlashRead_eq p offset total s) ?_)
    refine (pollData_answered p output total.toNat 0 0 _ (Nat.zero_le _) hram).bind ?_
      fun _ _ _ => trivial
    intro _ s₁ hdata
    obtain ⟨bs, hdelivers⟩ := hdata.delivers
    exact (pollDone_answered p 0 s₁ (Nat.zero_le _)).mono
      (fun _ s' hdone => ⟨bs, s₁.dev, hdelivers, hdone⟩) fun _ _ _ => trivial
  obtain ⟨bs, hbs⟩ := hserves.ok h
  have hrun := readFlash_serves p offset total output s bs s'.dev hram hbs
  rw [h] at hrun
  exact ⟨bs, hbs, congrArg Machine.mem (EStateM.Result.ok.inj hrun).2⟩

/-- Into an unmapped buffer it faults on the first word. -/
theorem readFlash_serves_fault (offset total : Word) (output : Nat) (s : Machine δ)
    (bs : List Byte) (d' : δ) (hpos : 0 < total.toNat) (hram : p.ram output = false)
    (hmmio : p.mmio output = false)
    (h : p.spiPort.Serves MAX_SPIN offset total s.dev bs d') :
    ∃ d₁, readFlash p offset total output s = .error (.fault output) { s with dev := d₁ } := by
  obtain ⟨d₁, hdata, _⟩ := h
  generalize hn : total.toNat = n at hdata hpos
  cases hdata with
  | nil q => omega
  | word n q q₁ q' bs _ hpoll _ =>
      refine ⟨(p.spiPort.read 0x10 q₁).2, ?_⟩
      have hfirst : ∃ rest, (leBytes (p.spiPort.read 0x10 q₁).1).take (n - 0) =
          byteAt (p.spiPort.read 0x10 q₁).1 0 :: rest := by
        obtain ⟨k, hk⟩ : ∃ k, n - 0 = k + 1 := ⟨n - 1, by omega⟩
        exact ⟨_, by rw [hk]; rfl⟩
      obtain ⟨rest, hrest⟩ := hfirst
      have hword := readData_eq p { s with dev := q₁ }
      have hstore := storeByte_fault p (output + 0) (byteAt (p.spiPort.read 0x10 q₁).1 0)
        { s with dev := (p.spiPort.read 0x10 q₁).2 } hram hmmio
      rw [readFlash, bind_of_ok (startFlashRead_eq p offset total s), readFlashWords, hn]
      refine bind_of_error ?_ _
      rw [pollData_answers p output n 0 0 MAX_SPIN _ q₁ (by omega) (by omega) hpoll,
        bind_of_ok hword, hrest, storeBytes]
      exact bind_of_error (bind_of_error hstore _) _

end SecureBoot.Bootrom
