import SecureBoot.Base.Transition
import SecureBoot.Bootrom.Isolation
import SecureBoot.Bootrom.Released

/-!
# The life of a device

Boots on whatever the flash holds by then, and between them any software: a kernel behind the
PMP, or recovery with the bus open. Of it all a short table of rules is left, about the releases
that were started and the versions that may still be.
-/

namespace SecureBoot.Life

open Bootrom Exec Protection Words

/-! ## The device -/

/-- What is fused or wired and outlives every boot. -/
structure Anchor where
  otpHash : Vector Byte 32
  script : Ed25519.Files → Bool

variable {σ : Type}

def Anchor.In (anchor : Anchor) (soc : Soc σ) : Prop :=
  soc.otpHash = anchor.otpHash ∧ soc.script = anchor.script

/-- Under the fused key the verifier accepts the manifests of these releases only. -/
def Anchor.Vendor (anchor : Anchor) (released : Release → Prop) : Prop :=
  ∀ (M : Manifest) (sig key : List Byte), anchor.script ⟨M.bytes, sig, key⟩ = true →
    Fips180.sha256 key = anchor.otpHash.toList → ∃ r, released r ∧ M = r.manifest

structure Device (σ : Type) where
  machine : Machine (Devices σ)
  /-- the last boot has ended in a kernel -/
  running : Bool

/-- A store to the counter's register. -/
def Counts (a : Access) : Prop := a.kind = .store ∧ counterRegion.Touches a

/-- What an access may change once it is allowed: anything but the PMP, and the counter by its
write rule only. -/
structure Effect (a : Access) (s s' : Machine (Devices σ)) : Prop where
  pmp : s'.pmp = s.pmp
  counter : s'.dev.counter = s.dev.counter ∨
    Counts a ∧ ∃ v, s'.dev.counter = RollbackCounter.write s.dev.counter v

/-- No load or store of the SoC does more. -/
theorem accesses_effect (soc : Soc σ) (mode : Mode) (x : Nat) (s : Machine (Devices σ)) :
    (∀ value, Effect ⟨mode, .store, x, 8, by decide⟩ s
      { s with dev := soc.platform.write64 x value s.dev }) ∧
    (∀ value, Effect ⟨mode, .store, x, 4, by decide⟩ s
      { s with dev := soc.platform.write32 x value s.dev }) ∧
    (∀ b, Effect ⟨mode, .store, x, 1, by decide⟩ s { s with mem := s.mem.store x b }) ∧
    Effect ⟨mode, .load, x, 8, by decide⟩ s { s with dev := (soc.platform.read64 x s.dev).2 } ∧
    Effect ⟨mode, .load, x, 4, by decide⟩ s { s with dev := (soc.platform.read32 x s.dev).2 } := by
  refine ⟨fun value => ?_, fun value => ?_, fun b => ⟨rfl, .inl rfl⟩, ⟨rfl, .inl ?_⟩,
    ⟨rfl, .inl ?_⟩⟩
  · by_cases hx : x = ROLLBACK_COUNTER_BASE
    · subst hx
      have htouches : counterRegion.Touches
          ⟨mode, .store, ROLLBACK_COUNTER_BASE, 8, by decide⟩ := by
        simp [counterRegion, Region.Touches, ROLLBACK_COUNTER_BASE]
      exact ⟨rfl, .inr ⟨⟨rfl, htouches⟩, value, rfl⟩⟩
    · refine ⟨rfl, .inl ?_⟩
      show (Soc.write64 x value s.dev).counter = s.dev.counter
      rw [Soc.write64, if_neg hx]
  · refine ⟨rfl, .inl ?_⟩
    show (soc.write32 x value s.dev).counter = s.dev.counter
    unfold Soc.write32
    repeat' split
    all_goals rfl
  · show (Soc.read64 x s.dev).2.counter = s.dev.counter
    unfold Soc.read64
    split
    all_goals rfl
  · show (soc.read32 x s.dev).2.counter = s.dev.counter
    unfold Soc.read32
    repeat' split
    all_goals rfl

inductive Event (σ : Type) where
  | boot (e : Exit) (s' : Machine (Devices σ))
  | access (a : Access)
  | csr (w : Mode × CsrWrite)

/-- A boot finds the counter of the device and a PMP that is OFF and unlocked; flash, memory and the
rest of the machine are as they may be. -/
inductive Step (anchor : Anchor) : Device σ → Event σ → Device σ → Prop
  | boot (d : Device σ) (soc : Soc σ) (s s' : Machine (Devices σ)) (e : Exit)
      (hanchor : anchor.In soc) (hcounter : s.dev.counter = d.machine.dev.counter)
      (hoff : s.pmp.Off) (hrun : bootromMain soc.platform s = .error e s') :
      Step anchor d (.boot e s') ⟨s', decide (e = .kernel)⟩
  | access (d : Device σ) (a : Access) (s' : Machine (Devices σ))
      (hallowed : d.machine.pmp.allows a = true) (heffect : Effect a d.machine s') :
      Step anchor d (.access a) ⟨s', d.running⟩
  | csr (d : Device σ) (w : Mode × CsrWrite) :
      Step anchor d (.csr w) ⟨{ d.machine with pmp := d.machine.pmp.csrWrite w }, d.running⟩

/-! ## The rules -/

/-- The lowest version that may be started, and what runs. -/
structure Rules where
  floor : Nat
  running : Option Release

inductive Move where
  | start (r : Release)
  | stop
  | raise (floor : Nat)
  | work

inductive Allowed (released : Release → Prop) : Rules → Move → Rules → Prop
  | start (t : Rules) (r : Release) (hr : released r) (hfloor : t.floor ≤ r.version.toNat) :
      Allowed released t (.start r) ⟨r.version.toNat, some r⟩
  | stop (t : Rules) : Allowed released t .stop ⟨t.floor, none⟩
  | raise (t : Rules) (floor : Nat) (hidle : t.running = none) (hfloor : t.floor ≤ floor) :
      Allowed released t (.raise floor) ⟨floor, none⟩
  | work (t : Rules) : Allowed released t .work t

/-- The moves behind an event. -/
inductive Seen : Event σ → List Move → Prop
  | start (s' : Machine (Devices σ)) (r : Release) (h : r.Entered s')
      (counter : s'.dev.counter = r.version.setWidth 64) : Seen (.boot .kernel s') [.start r]
  | stop (e : Exit) (s' : Machine (Devices σ)) (h : e ≠ .kernel) : Seen (.boot e s') [.stop]
  | raise (a : Access) (floor : Nat) (h : Counts a) : Seen (.access a) [.raise floor]
  | work (a : Access) : Seen (.access a) [.work]
  | csr (w : Mode × CsrWrite) : Seen (.csr w) [.work]

/-- A device that follows the rules. -/
structure Follows (d : Device σ) (t : Rules) : Prop where
  floor : d.machine.dev.counter.toNat = t.floor
  running : d.running = t.running.isSome
  pmp : d.running = true → ∃ addr, d.machine.pmp = bootPmp addr

theorem idle_follows {d : Device σ} (hidle : d.running = false) :
    Follows d ⟨d.machine.dev.counter.toNat, none⟩ := by
  refine ⟨rfl, hidle, fun h => ?_⟩
  rw [hidle] at h
  cases h

theorem Anchor.In.vendor {anchor : Anchor} {soc : Soc σ} (h : anchor.In soc)
    {released : Release → Prop} (hvendor : anchor.Vendor released) :
    Bootrom.Vendor soc released := by
  intro M sig key hscript hkey
  rw [h.2] at hscript
  rw [h.1] at hkey
  exact hvendor M sig key hscript hkey

theorem widened_toNat (version : Word) : (version.setWidth 64).toNat = version.toNat := by
  rw [BitVec.toNat_setWidth]
  exact Nat.mod_eq_of_lt (Nat.lt_of_lt_of_le version.isLt (by decide))

variable {anchor : Anchor} {released : Release → Prop}

theorem step_simulates (hvendor : anchor.Vendor released) :
    Transition.Simulates (Step (σ := σ) anchor) (Allowed released) Follows Seen := by
  intro d event d' t hfollows hstep
  cases hstep with
  | boot soc s s' e hanchor hcounter hoff hrun =>
      have hfloor : s.dev.counter.toNat = t.floor := by rw [hcounter, hfollows.floor]
      cases (bootromMain_ends soc (hanchor.vendor hvendor) s).error hrun with
      | refused _ _ h =>
          have hexit : e ≠ .kernel := by
            rw [h.exit]
            decide
          refine ⟨[.stop], _, .stop e s' hexit, .one (.stop t), ?_, ?_, ?_⟩
          · exact (congrArg BitVec.toNat h.counter).trans hfloor
          · exact decide_eq_false hexit
          · exact fun hrunning => absurd (of_decide_eq_true hrunning) hexit
      | started r hr _ version counter pmp entered =>
          rw [BitVec.le_def, hfloor, widened_toNat] at version
          refine ⟨[.start r], _, .start s' r entered counter, .one (.start t r hr version), ?_,
            rfl, ?_⟩
          · exact (congrArg BitVec.toNat counter).trans (widened_toNat r.version)
          · exact fun _ => ⟨_, pmp.trans (lockedPmp_off hoff)⟩
  | access a s' hallowed heffect =>
      rcases heffect.counter with hsame | ⟨hcounts, v, hwrite⟩
      · refine ⟨[.work], t, .work a, .one (.work t), ?_, hfollows.running, ?_⟩
        · exact (congrArg BitVec.toNat hsame).trans hfollows.floor
        · exact fun h => (hfollows.pmp h).imp fun _ hpmp => heffect.pmp.trans hpmp
      · -- behind the PMP of a boot the register is out of reach
        have hidle : d.running = false := by
          by_contra hrunning
          rw [Bool.not_eq_false] at hrunning
          rcases hfollows.pmp hrunning with ⟨addr, hpmp⟩
          rw [hpmp, (bootPmp_isolated addr).counter a hcounts.2] at hallowed
          cases hallowed
        have hnone : t.running = none := by
          have hsome := hfollows.running
          rw [hidle] at hsome
          exact Option.not_isSome_iff_eq_none.mp (by rw [← hsome]; exact Bool.false_ne_true)
        have hfloor : t.floor ≤ s'.dev.counter.toNat := by
          rw [hwrite, RollbackCounter.write_toNat, hfollows.floor]
          exact Nat.le_max_left _ _
        refine ⟨[.raise s'.dev.counter.toNat], _, .raise a _ hcounts,
          .one (.raise t _ hnone hfloor), rfl, hidle, ?_⟩
        intro hrunning
        rw [hidle] at hrunning
        cases hrunning
  | csr w =>
      refine ⟨[.work], t, .csr w, .one (.work t), hfollows.floor, hfollows.running, ?_⟩
      intro hrunning
      rcases hfollows.pmp hrunning with ⟨addr, hpmp⟩
      have hlocked : ∀ i < 16, d.machine.pmp.locked i = true := by
        rw [hpmp]
        exact bootPmp_locked addr
      exact ⟨addr, (csrWrite_locked hlocked w).trans hpmp⟩

/-! ## A device with two releases -/

def selfRelease : Release := ⟨1, [0x6F, 0, 0, 0], by decide, by decide⟩

/-- The same loop, over two instructions. -/
def nextRelease : Release := ⟨2, [0x13, 0, 0, 0, 0x6F, 0xF0, 0xDF, 0xFF], by decide, by decide⟩

def nextLoop : Image :=
  .firmware 2 0x80000000 0x80000000 nextRelease.kernel nextRelease.kernel
    (ofHex 32 0xb025564f844f39adedd80ea42377f5c0003d1ad13e543f6a470d07ffb07fe642 ++
      ofHex 32 0x66d4a0805fa43c9b4c685e0aa404aa34d527ce925b96e23d331e65f2148e370e) (by decide)

theorem selfRelease_manifest : selfLoop.manifest = selfRelease.manifest := rfl

theorem nextRelease_manifest : nextLoop.manifest = nextRelease.manifest := rfl

def loopReleased (r : Release) : Prop := r = selfRelease ∨ r = nextRelease

/-- The development key, and a verifier of what was signed with it. -/
def loopAnchor : Anchor where
  otpHash := selfLoop.chip.otpHash
  script files := selfLoop.chip.script files || nextLoop.chip.script files

/-- A chip of the device, with one of the two images in its flash. -/
def loopChip (I : Image) : Soc IdealFlash :=
  { I.chip with otpHash := loopAnchor.otpHash, script := loopAnchor.script }

theorem loopAnchor_vendor : loopAnchor.Vendor loopReleased := by
  intro M sig key h _
  rcases Bool.or_eq_true_iff.mp h with h | h
  · exact ⟨selfRelease, .inl rfl, (selfLoop.chip_accepts h).trans selfRelease_manifest⟩
  · exact ⟨nextRelease, .inr rfl, (nextLoop.chip_accepts h).trans nextRelease_manifest⟩

theorem selfLoop_verified : selfLoop.Verified (loopChip selfLoop) := by
  obtain ⟨hheader, hkey, hsig⟩ := selfLoop.chip_verified
    (Manifest.pack_headerOk _ _ _ _ _ (Fips180.sha256_length _))
  refine ⟨hheader, hkey, ?_⟩
  unfold Image.SignatureOk at hsig ⊢
  simp only [loopChip, loopAnchor, hsig, Bool.true_or]

theorem nextLoop_verified : nextLoop.Verified (loopChip nextLoop) := by
  obtain ⟨hheader, hkey, hsig⟩ := nextLoop.chip_verified
    (Manifest.pack_headerOk _ _ _ _ _ (Fips180.sha256_length _))
  refine ⟨hheader, hkey, ?_⟩
  unfold Image.SignatureOk at hsig ⊢
  simp only [loopChip, loopAnchor, hsig, Bool.or_true]

/-- A released image boots where the counter allows it. -/
theorem loopChip_boots {I : Image} {r : Release} (hmanifest : I.manifest = r.manifest)
    (hpayload : I.payload = r.kernel) (hverified : I.Verified (loopChip I)) (mem : Memory)
    (counter : DWord) (hcounter : counter ≤ r.version.setWidth 64) :
    ∃ s', bootromMain (loopChip I).platform (Image.atReset mem counter) = .error .kernel s' ∧
      s'.dev.counter = r.version.setWidth 64 := by
  have hpacked : Packed I.manifest := hmanifest ▸ r.packed
  have hlength : I.payload.length = I.manifest.payloadSize := by
    rw [hpayload, hmanifest, r.manifest_payloadSize]
  have hend : I.manifest.loadAddress + I.manifest.payloadSize ≤ 0x90000000 := by
    rw [hpacked.loadAddress]
    exact Nat.le_trans (Nat.add_le_add_left hpacked.fits _) (by decide)
  have hplaced : I.Placed :=
    ⟨hlength, hpacked.nonempty, hpacked.loadAddress.ge, hend, hpacked.loadClear⟩
  have hhash : Fips180.sha256 I.payload = I.manifest.payloadHash := by
    rw [hpayload, hmanifest, r.manifest_payloadHash]
  obtain ⟨t, hloaded, hrun⟩ := hplaced.flash_loads (loopChip I) rfl hverified mem counter
  have hversion : (Manifest.ofMem t.mem).version = r.version.setWidth 64 := by
    rw [hloaded.manifest, hmanifest, r.manifest_version]
  have hbefore : t.dev.counter = counter := (Prod.mk.inj hloaded.kept.dev).1
  rw [if_pos hhash, afterLoad_accepts _ t (by rw [hbefore, hversion]; exact hcounter)] at hrun
  refine ⟨_, hrun, ?_⟩
  show RollbackCounter.write t.dev.counter (Manifest.ofMem t.mem).version = _
  rw [hbefore, hversion]
  apply BitVec.eq_of_toNat_eq
  rw [RollbackCounter.write_toNat]
  exact Nat.max_eq_right hcounter

/-- The second release boots after the first. -/
theorem loops_life : ∃ s₁ s₂ d', Transition.Run (Step loopAnchor)
    ⟨Image.atReset (fun _ => 0) 0, false⟩ [.boot .kernel s₁, .boot .kernel s₂] d' ∧
    d'.running = true ∧ s₁.dev.counter = 1 ∧ s₂.dev.counter = 2 ∧ d'.machine.dev.counter = 2 := by
  obtain ⟨s₁, h₁, hcounter₁⟩ := loopChip_boots selfRelease_manifest rfl selfLoop_verified
    (fun _ => 0) 0 (by decide)
  obtain ⟨s₂, h₂, hcounter₂⟩ := loopChip_boots nextRelease_manifest rfl nextLoop_verified
    (fun _ => 0) 1 (by decide)
  refine ⟨s₁, s₂, _, .cons _ _ _ _ _ (.boot _ (loopChip selfLoop) _ _ _ ⟨rfl, rfl⟩ rfl ?_ h₁)
    (.one (.boot _ (loopChip nextLoop) _ _ _ ⟨rfl, rfl⟩ hcounter₁.symm ?_ h₂)), rfl, hcounter₁,
    hcounter₂, hcounter₂⟩
  · exact Image.atReset_off _ _
  · exact Image.atReset_off _ _

/-! ## Every life -/

/-- Every life of the device is, seen from outside, a sequence of moves that the rules allow. -/
theorem life_refines (hvendor : anchor.Vendor released) {d d' : Device σ}
    {events : List (Event σ)} (hrun : Transition.Run (Step anchor) d events d')
    (hidle : d.running = false) :
    ∃ kss t', List.Forall₂ Seen events kss ∧
      Transition.Run (Allowed released) ⟨d.machine.dev.counter.toNat, none⟩ kss.flatten t' ∧
      Follows d' t' :=
  hrun.refines (step_simulates hvendor) (idle_follows hidle)

theorem loops_refine : ∃ (s₁ s₂ : Machine (Devices IdealFlash)) (kss : List (List Move))
    (t' : Rules), List.Forall₂ Seen [.boot .kernel s₁, .boot .kernel s₂] kss ∧
      Transition.Run (Allowed loopReleased) ⟨0, none⟩ kss.flatten t' ∧ t'.floor = 2 := by
  rcases loops_life with ⟨s₁, s₂, d', hrun, _, _, _, hcounter⟩
  rcases life_refines loopAnchor_vendor hrun rfl with ⟨kss, t', hseen, habs, hfollows⟩
  refine ⟨s₁, s₂, kss, t', hseen, habs, ?_⟩
  rw [← hfollows.floor, hcounter]
  rfl

/-! ## What the rules guarantee -/

section Rules

variable {t t' : Rules} {moves : List Move}

theorem floor_le (hrun : Transition.Run (Allowed released) t moves t') : t.floor ≤ t'.floor := by
  refine hrun.monotone (I := fun _ => True) (R := fun t t' => t.floor ≤ t'.floor)
    (fun _ _ _ _ _ => trivial) (fun _ => Nat.le_refl _) (fun _ _ _ => Nat.le_trans) ?_ trivial
  intro t m t' _ h
  cases h with
  | start r hr hfloor => exact hfloor
  | stop => exact Nat.le_refl _
  | raise floor hidle hfloor => exact hfloor
  | work => exact Nat.le_refl _

/-- What is started later is a release and not older than the floor. -/
theorem le_of_start (hrun : Transition.Run (Allowed released) t moves t') {r : Release}
    (hr : .start r ∈ moves) : released r ∧ t.floor ≤ r.version.toNat := by
  induction hrun with
  | nil t => cases hr
  | cons t t₁ t' m moves hstep hrest ih =>
      rcases List.mem_cons.mp hr with hhead | htail
      · subst hhead
        cases hstep with
        | start _ hreleased hfloor => exact ⟨hreleased, hfloor⟩
      · exact ⟨(ih htail).1, Nat.le_trans (floor_le (.one hstep)) (ih htail).2⟩

/-- Two starts: both are releases, and the second is not older. -/
def InOrder (released : Release → Prop) (m m' : Move) : Prop :=
  ∀ r r', m = .start r → m' = .start r' → released r ∧ released r' ∧
    r.version.toNat ≤ r'.version.toNat

theorem moves_inOrder (hrun : Transition.Run (Allowed released) t moves t') :
    moves.Pairwise (InOrder released) := by
  induction hrun with
  | nil t => exact .nil
  | cons t t₁ t' m moves hstep hrest ih =>
      refine .cons ?_ ih
      intro m' hm' r r' hr hr'
      subst hr hr'
      cases hstep with
      | start _ hreleased hfloor =>
          exact ⟨hreleased, le_of_start hrest hm'⟩

/-- While a release runs and nothing boots, nothing changes. -/
theorem work_only (hrun : Transition.Run (Allowed released) t moves t') {r : Release}
    (hr : t.running = some r) (hstart : ∀ r', .start r' ∉ moves) (hstop : .stop ∉ moves) :
    t' = t := by
  induction hrun with
  | nil t => rfl
  | cons t t₁ t' m moves hstep hrest ih =>
      cases hstep with
      | start r' hreleased hfloor => exact absurd List.mem_cons_self (hstart r')
      | stop => exact absurd List.mem_cons_self hstop
      | raise floor hidle hfloor =>
          rw [hr] at hidle
          cases hidle
      | work =>
          exact ih hr (fun r' h => hstart r' (List.mem_cons_of_mem _ h))
            fun h => hstop (List.mem_cons_of_mem _ h)

end Rules

/-! ## What follows for the device -/

theorem last_boot (events : List (Event σ)) : (∀ e s, .boot e s ∉ events) ∨
    ∃ before e s' after, events = before ++ .boot e s' :: after ∧ ∀ e s, .boot e s ∉ after := by
  induction events with
  | nil => exact .inl fun _ _ h => nomatch h
  | cons x events ih =>
      rcases ih with hnone | ⟨before, e, s', after, rfl, hnone⟩
      · cases x with
        | boot e s' => exact .inr ⟨[], e, s', events, rfl, hnone⟩
        | access a =>
            exact .inl fun e s h => (List.mem_cons.mp h).elim (fun h => nomatch h) (hnone e s)
        | csr w =>
            exact .inl fun e s h => (List.mem_cons.mp h).elim (fun h => nomatch h) (hnone e s)
      · exact .inr ⟨x :: before, e, s', after, rfl, hnone⟩

theorem running_of_no_boot {d d' : Device σ} {events : List (Event σ)}
    (hrun : Transition.Run (Step anchor) d events d') (hnone : ∀ e s, .boot e s ∉ events) :
    d'.running = d.running := by
  induction hrun with
  | nil d => rfl
  | cons d d₁ d' x events hstep _ ih =>
      rw [ih fun e s h => hnone e s (List.mem_cons_of_mem _ h)]
      cases hstep with
      | boot soc s s' e hanchor hcounter hoff hrun =>
          exact absurd List.mem_cons_self (hnone e s')
      | access a s' hallowed heffect => rfl
      | csr w => rfl

theorem moves_of_no_boot {events : List (Event σ)} {kss : List (List Move)}
    (hseen : List.Forall₂ Seen events kss) (hnone : ∀ e s, .boot e s ∉ events) :
    (∀ r, .start r ∉ kss.flatten) ∧ .stop ∉ kss.flatten := by
  induction hseen with
  | nil => exact ⟨fun _ => List.not_mem_nil, List.not_mem_nil⟩
  | cons hfirst _ ih =>
      rcases ih fun e s h => hnone e s (List.mem_cons_of_mem _ h) with ⟨hstart, hstop⟩
      cases hfirst with
      | start s' r h counter => exact absurd List.mem_cons_self (hnone .kernel s')
      | stop e s' h => exact absurd List.mem_cons_self (hnone e s')
      | _ =>
          rw [List.flatten_cons]
          exact ⟨fun r h => (List.mem_append.mp h).elim (by simp) (hstart r),
            fun h => (List.mem_append.mp h).elim (by simp) hstop⟩

/-- Of two kernels that are started in a life both are releases, each is entered with the counter at
its version, and the later is not older, whatever software ran and whatever was done to the flash in
between. -/
theorem kernels_in_order (hvendor : anchor.Vendor released) {d d' : Device σ}
    {events : List (Event σ)} (hrun : Transition.Run (Step anchor) d events d')
    (hidle : d.running = false) :
    events.Pairwise fun x y => ∀ s s', x = .boot .kernel s → y = .boot .kernel s' →
      ∃ r r', released r ∧ released r' ∧ r.Entered s ∧ r'.Entered s' ∧
        s.dev.counter = r.version.setWidth 64 ∧ s'.dev.counter = r'.version.setWidth 64 ∧
        r.version.toNat ≤ r'.version.toNat := by
  rcases hrun.refines (step_simulates hvendor) (idle_follows hidle) with
    ⟨kss, t', hseen, habs, _⟩
  refine Transition.pairwise_of_seen ?_ hseen (moves_inOrder habs)
  intro x y ks ks' hx hy hpair s s' hxs hys
  subst hxs hys
  cases hx with
  | stop _ _ h => exact absurd rfl h
  | start _ r hentered hcounter =>
      cases hy with
      | stop _ _ h => exact absurd rfl h
      | start _ r' hentered' hcounter' =>
          have h := hpair _ List.mem_cons_self _ List.mem_cons_self r r' rfl rfl
          exact ⟨r, r', h.1, h.2.1, hentered, hentered', hcounter, hcounter', h.2.2⟩

theorem loops_in_order : ∃ (s₁ s₂ : Machine (Devices IdealFlash)) (r r' : Release),
    r.Entered s₁ ∧ r'.Entered s₂ ∧ s₁.dev.counter = 1 ∧ s₂.dev.counter = 2 ∧
      s₁.dev.counter = r.version.setWidth 64 ∧ s₂.dev.counter = r'.version.setWidth 64 ∧
      r.version.toNat ≤ r'.version.toNat := by
  rcases loops_life with ⟨s₁, s₂, d', hrun, _, hone, htwo, _⟩
  have hpair := kernels_in_order loopAnchor_vendor hrun rfl
  rcases List.rel_of_pairwise_cons hpair List.mem_cons_self s₁ s₂ rfl rfl with
    ⟨r, r', _, _, h, h', hcounter, hcounter', hle⟩
  exact ⟨s₁, s₂, r, r', h, h', hone, htwo, hcounter, hcounter', hle⟩

/-- What runs is the release that the last boot has started. The counter is at its version, and
the root of trust is behind the PMP, whatever the kernel has tried since. -/
theorem running_kernel (hvendor : anchor.Vendor released) {d d' : Device σ}
    {events : List (Event σ)} (hrun : Transition.Run (Step anchor) d events d')
    (hidle : d.running = false) (hrunning : d'.running = true) :
    ∃ before s' after r, events = before ++ .boot .kernel s' :: after ∧
      (∀ e s, .boot e s ∉ after) ∧ released r ∧ r.Entered s' ∧
      d'.machine.dev.counter = r.version.setWidth 64 ∧ Isolated d'.machine.pmp := by
  rcases last_boot events with hnone | ⟨before, e, s', after, rfl, hnone⟩
  · rw [running_of_no_boot hrun hnone, hidle] at hrunning
    cases hrunning
  · rcases hrun.split with ⟨d₁, _, hlast⟩
    cases hlast with
    | cons _ d₂ _ _ _ hstep hafter =>
        cases hstep with
        | boot soc s _ _ hanchor hcounter hoff hboot =>
            rw [running_of_no_boot hafter hnone] at hrunning
            have hkernel : e = .kernel := of_decide_eq_true hrunning
            subst hkernel
            cases (bootromMain_ends soc (hanchor.vendor hvendor) s).error hboot with
            | refused _ _ h => cases h.exit
            | started r hr _ version counter pmp entered =>
                have hfollows : Follows ⟨s', decide (Exit.kernel = .kernel)⟩
                    ⟨r.version.toNat, some r⟩ := by
                  refine ⟨?_, rfl, fun _ => ?_⟩
                  · exact (congrArg BitVec.toNat counter).trans (widened_toNat r.version)
                  · exact ⟨_, pmp.trans (lockedPmp_off hoff)⟩
                rcases hafter.refines (step_simulates hvendor) hfollows with
                  ⟨kss, t', hseen, habs, hfollows'⟩
                have hmoves := moves_of_no_boot hseen hnone
                have ht := work_only habs rfl hmoves.1 hmoves.2
                subst ht
                refine ⟨before, s', after, r, rfl, hnone, hr, entered, ?_, ?_⟩
                · apply BitVec.eq_of_toNat_eq
                  rw [hfollows'.floor, widened_toNat]
                · rcases hfollows'.pmp hfollows'.running with ⟨addr, hpmp⟩
                  rw [hpmp]
                  exact bootPmp_isolated addr

theorem loops_running : ∃ (s' : Machine (Devices IdealFlash)) (d' : Device IdealFlash),
    d'.running = true ∧ nextRelease.Entered s' ∧
      d'.machine.dev.counter = nextRelease.version.setWidth 64 ∧ Isolated d'.machine.pmp := by
  rcases loops_life with ⟨s₁, s₂, d', hrun, hrunning, _, _, htwo⟩
  rcases running_kernel loopAnchor_vendor hrun rfl hrunning with
    ⟨_, s', _, r, _, _, hr, hentered, hcounter, hpmp⟩
  rcases hr with rfl | rfl
  · -- the first release has left the counter at 1
    rw [htwo] at hcounter
    exact absurd hcounter (by decide)
  · exact ⟨s', d', hrunning, hentered, hcounter, hpmp⟩

/-- In a life without a store to the counter its value stays at what the started kernels left. -/
theorem counter_le (hvendor : anchor.Vendor released) {d d' : Device σ}
    {events : List (Event σ)} (hrun : Transition.Run (Step anchor) d events d')
    (hquiet : ∀ a, .access a ∈ events → ¬ Counts a) {bound : Nat}
    (hfirst : d.machine.dev.counter.toNat ≤ bound)
    (hstarted : ∀ s', .boot .kernel s' ∈ events → s'.dev.counter.toNat ≤ bound) :
    d'.machine.dev.counter.toNat ≤ bound := by
  induction hrun with
  | nil d => exact hfirst
  | cons d d₁ d' x events hstep _ ih =>
      refine ih (fun a ha => hquiet a (List.mem_cons_of_mem _ ha)) ?_
        fun s' hs => hstarted s' (List.mem_cons_of_mem _ hs)
      cases hstep with
      | boot soc s s' e hanchor hcounter hoff hboot =>
          cases (bootromMain_ends soc (hanchor.vendor hvendor) s).error hboot with
          | refused _ _ h =>
              show s'.dev.counter.toNat ≤ bound
              rwa [h.counter, hcounter]
          | started r hr _ version counter pmp entered => exact hstarted s' List.mem_cons_self
      | access a s' hallowed heffect =>
          rcases heffect.counter with hsame | ⟨hcounts, _⟩
          · show s'.dev.counter.toNat ≤ bound
            rwa [hsame]
          · exact absurd hcounts (hquiet a List.mem_cons_self)
      | csr w => exact hfirst

end SecureBoot.Life
