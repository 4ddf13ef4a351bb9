import SecureBoot.Bootrom.Attribution
import SecureBoot.Bootrom.Life

/-!
# Upgrades and downgrades

A release in the flash of a device that has lived. What was started before decides whether it
boots or is refused as too old; and every sequence of releases that the rules allow can be lived.
-/

namespace SecureBoot.Life

open Bootrom Exec Protection

variable {σ : Type} {anchor : Anchor} {released : Release → Prop}

/-- A chip of the device about to boot, with the signed image of a release in its flash. -/
structure Holds (anchor : Anchor) (soc : Soc σ) (r : Release) (I : Image)
    (s : Machine (Devices σ)) : Prop where
  anchored : anchor.In soc
  manifest : I.manifest = r.manifest
  payload : I.payload = r.kernel
  verified : I.Verified soc
  served : I.ServedBy soc s.dev.spi

variable {soc : Soc σ} {r : Release} {I : Image} {s : Machine (Devices σ)}

/-- The kernel of the release is in memory and entered, the counter at its version. -/
structure Booted (r : Release) (s' : Machine (Devices σ)) : Prop where
  payload : s'.mem.read 0x80000000 r.kernel.length = r.kernel
  counter : s'.dev.counter = r.version.setWidth 64
  entry : s'.mepc = 0x80000000

theorem Holds.packed (h : Holds anchor soc r I s) : Packed I.manifest := h.manifest ▸ r.packed

/-- Only Stage 4 can object. -/
theorem Holds.firstFailing (h : Holds anchor soc r I s) (counter : DWord) :
    I.firstFailing soc counter =
      if r.version.toNat < counter.toNat then some .version else none := by
  rcases h.verified with ⟨hheader, hkey, hsig⟩
  have hhash : Fips180.sha256 I.payload = I.manifest.payloadHash := by
    rw [h.payload, h.manifest, r.manifest_payloadHash]
  have hpayload : I.PayloadOk := ⟨h.packed.not_loadRefused, hhash⟩
  have hversion : I.manifest.version < counter ↔ r.version.toNat < counter.toNat := by
    rw [h.manifest, r.manifest_version, BitVec.lt_def, widened_toNat]
  rw [Image.firstFailing, if_neg (not_not_intro hheader), if_neg (not_not_intro hkey),
    if_neg (not_not_intro hsig), if_neg (not_not_intro hpayload)]
  simp only [hversion]

theorem Holds.policyEnd (h : Holds anchor soc r I s) :
    ∃ e s', bootromMain soc.platform s = .error e s' ∧ PolicyEnd soc I s
      (if r.version.toNat < s.dev.counter.toNat then some .version else none) e s' := by
  have hend := bootromMain_policyEnd soc I s h.served
    fun _ _ => ⟨h.packed.ramRange soc, h.packed.loadClear⟩
  rwa [h.firstFailing] at hend

/-- A release that is new enough boots. -/
theorem Holds.boots (h : Holds anchor soc r I s)
    (hcounter : s.dev.counter.toNat ≤ r.version.toNat) :
    ∃ s', bootromMain soc.platform s = .error .kernel s' ∧ Booted r s' := by
  rcases h.policyEnd with ⟨e, s', hboot, hend⟩
  rw [if_neg (Nat.not_lt.mpr hcounter)] at hend
  cases hend with
  | started t hloaded =>
      have hboots := boots_of_loaded soc I s t h.packed hloaded
      refine ⟨_, hboot, ?_, ?_, rfl⟩
      · have hread := hboots.payload
        rwa [h.manifest, r.manifest_payloadSize, h.payload] at hread
      · apply BitVec.eq_of_toNat_eq
        rw [hboots.counter, h.manifest, r.manifest_version, widened_toNat]
        exact Nat.max_eq_right hcounter

/-- An older one is refused in Stage 4. -/
theorem Holds.refused (h : Holds anchor soc r I s)
    (hcounter : r.version.toNat < s.dev.counter.toNat) :
    ∃ s', bootromMain soc.platform s = .error .recovery s' ∧ Recovers .version s s' := by
  rcases h.policyEnd with ⟨e, s', hboot, hend⟩
  rw [if_pos hcounter] at hend
  cases hend with
  | refused _ _ hrecovers => exact ⟨s', hboot, hrecovers⟩

/-! ## What was started decides -/

theorem step_counter_le (hvendor : anchor.Vendor released) {d d' : Device σ} {x : Event σ}
    (hstep : Step anchor d x d') :
    d.machine.dev.counter.toNat ≤ d'.machine.dev.counter.toNat := by
  cases hstep with
  | boot soc s s' e hanchor hcounter hoff hrun =>
      rw [← hcounter]
      cases (bootromMain_ends soc (hanchor.vendor hvendor) s).error hrun with
      | refused _ _ h =>
          show s.dev.counter.toNat ≤ s'.dev.counter.toNat
          rw [h.counter]
      | started r hr _ version counter pmp entered =>
          show s.dev.counter.toNat ≤ s'.dev.counter.toNat
          rw [counter]
          exact version
  | access a s' hallowed heffect =>
      rcases heffect.counter with hsame | ⟨_, v, hwrite⟩
      · exact Nat.le_of_eq (congrArg BitVec.toNat hsame).symm
      · show d.machine.dev.counter.toNat ≤ s'.dev.counter.toNat
        rw [hwrite, RollbackCounter.write_toNat]
        exact Nat.le_max_left _ _
  | csr w => exact Nat.le_refl _

theorem run_counter_le (hvendor : anchor.Vendor released) {d d' : Device σ}
    {events : List (Event σ)} (hrun : Transition.Run (Step anchor) d events d') :
    d.machine.dev.counter.toNat ≤ d'.machine.dev.counter.toNat :=
  hrun.monotone (I := fun _ => True)
    (R := fun d d' : Device σ => d.machine.dev.counter.toNat ≤ d'.machine.dev.counter.toNat)
    (fun _ _ _ _ _ => trivial) (fun _ => Nat.le_refl _) (fun _ _ _ => Nat.le_trans)
    (fun _ _ _ _ h => step_counter_le hvendor h) trivial

/-- The counter has seen every kernel of the life. -/
theorem started_counter_le (hvendor : anchor.Vendor released) {d d' : Device σ}
    {events : List (Event σ)} (hrun : Transition.Run (Step anchor) d events d')
    {s' : Machine (Devices σ)} (hstarted : .boot .kernel s' ∈ events) :
    s'.dev.counter.toNat ≤ d'.machine.dev.counter.toNat := by
  induction hrun with
  | nil d => cases hstarted
  | cons d d₁ d' x events hstep hrest ih =>
      rcases List.mem_cons.mp hstarted with hhead | htail
      · subst hhead
        cases hstep with
        | boot soc s _ _ hanchor hcounter hoff hrun => exact run_counter_le hvendor hrest
      · exact ih htail

theorem started_release (hvendor : anchor.Vendor released) {d d' : Device σ}
    {events : List (Event σ)} (hrun : Transition.Run (Step anchor) d events d')
    {s' : Machine (Devices σ)} (hstarted : .boot .kernel s' ∈ events) :
    ∃ r, released r ∧ r.Started s' := by
  induction hrun with
  | nil d => cases hstarted
  | cons d d₁ d' x events hstep hrest ih =>
      rcases List.mem_cons.mp hstarted with hhead | htail
      · subst hhead
        cases hstep with
        | boot soc s _ _ hanchor hcounter hoff hrun =>
            cases (bootromMain_ends soc (hanchor.vendor hvendor) s).error hrun with
            | refused _ _ h => cases h.exit
            | started r hr _ version counter pmp entered => exact ⟨r, hr, entered, counter⟩
      · exact ih htail

/-- After every life without a store to the counter the signed image of a release either boots, and
every release that was started is no newer, or is refused as too old, and a newer one was
started. -/
theorem release_decided (hvendor : anchor.Vendor released) {d d' : Device σ}
    {events : List (Event σ)} (hrun : Transition.Run (Step anchor) d events d')
    (hquiet : ∀ a, .access a ∈ events → ¬ Counts a)
    (hfirst : d.machine.dev.counter.toNat ≤ r.version.toNat) (hholds : Holds anchor soc r I s)
    (hcounter : s.dev.counter = d'.machine.dev.counter) :
    (∀ s₁, .boot .kernel s₁ ∈ events → ∃ r₁, released r₁ ∧ r₁.Started s₁ ∧
        r₁.version.toNat ≤ r.version.toNat) ∧
        (∃ s', bootromMain soc.platform s = .error .kernel s' ∧ Booted r s') ∨
      (∃ s₁ r₁, .boot .kernel s₁ ∈ events ∧ released r₁ ∧ r₁.Started s₁ ∧
        r.version.toNat < r₁.version.toNat) ∧
        ∃ s', bootromMain soc.platform s = .error .recovery s' ∧ Recovers .version s s' ∧
          (s.dev.status = 0 → ∀ image, RecoveryLoaded image s.mem →
            recoveryConsole soc.platform image s' =
              some (banner SR_ROLLBACK_COUNTER ++ [Check.version.line])) := by
  by_cases hnewer : ∃ s₁ r₁, .boot .kernel s₁ ∈ events ∧ released r₁ ∧ r₁.Started s₁ ∧
      r.version.toNat < r₁.version.toNat
  · right
    refine ⟨hnewer, ?_⟩
    rcases hnewer with ⟨s₁, r₁, hstarted, _, hr₁, hlt⟩
    have hlt : r.version.toNat < s.dev.counter.toNat := by
      rw [hcounter]
      refine Nat.lt_of_lt_of_le ?_ (started_counter_le hvendor hrun hstarted)
      rwa [hr₁.counter, widened_toNat]
    rcases hholds.refused hlt with ⟨s', hboot, hrecovers⟩
    refine ⟨s', hboot, hrecovers, fun hclear image himage => hrecovers.console hclear ?_⟩
    exact hrecovers.intact hholds.served (fun _ => hholds.packed.sparesRecovery _) hboot himage
  · left
    have hnewest : ∀ s₁, .boot .kernel s₁ ∈ events → ∃ r₁, released r₁ ∧
        r₁.Started s₁ ∧ r₁.version.toNat ≤ r.version.toNat := by
      intro s₁ hstarted
      rcases started_release hvendor hrun hstarted with ⟨r₁, hreleased, hr₁⟩
      exact ⟨r₁, hreleased, hr₁, Nat.not_lt.mp fun hlt =>
        hnewer ⟨s₁, r₁, hstarted, hreleased, hr₁, hlt⟩⟩
    refine ⟨hnewest, hholds.boots ?_⟩
    rw [hcounter]
    refine counter_le hvendor hrun hquiet hfirst fun s₁ hstarted => ?_
    rcases hnewest s₁ hstarted with ⟨r₁, _, hr₁, hle⟩
    rwa [hr₁.counter, widened_toNat]

theorem loopChip_holds {I : Image} {r : Release} (hmanifest : I.manifest = r.manifest)
    (hpayload : I.payload = r.kernel) (hverified : I.Verified (loopChip I)) (mem : Memory)
    (counter : DWord) : Holds loopAnchor (loopChip I) r I (Image.atReset mem counter) where
  anchored := ⟨rfl, rfl⟩
  manifest := hmanifest
  payload := hpayload
  verified := hverified
  served := I.flash_serves (loopChip I) rfl
    (by rw [hpayload, hmanifest, r.manifest_payloadSize]) _

/-- Once the second release has run, the first is refused. -/
theorem loops_decided : ∃ s', bootromMain (loopChip selfLoop).platform
    (Image.atReset stubMemory 2) = .error .recovery s' ∧
      recoveryConsole (loopChip selfLoop).platform recoveryStub s' =
        some (banner SR_ROLLBACK_COUNTER ++ [Check.version.line]) := by
  rcases loops_life with ⟨s₁, s₂, d', hrun, _, _, htwo, hcounter⟩
  have hdecided := release_decided loopAnchor_vendor hrun (fun a h => by simp at h) (by decide)
    (loopChip_holds selfRelease_manifest rfl selfLoop_verified stubMemory 2) hcounter.symm
  rcases hdecided with ⟨hnewest, _⟩ | ⟨_, s', hboot, _, hconsole⟩
  · rcases hnewest s₂ (by simp) with ⟨r₁, _, hr₁, hle⟩
    have hversion := congrArg BitVec.toNat (htwo.symm.trans hr₁.counter)
    rw [widened_toNat] at hversion
    rw [← hversion] at hle
    exact absurd hle (by decide)
  · exact ⟨s', hboot, hconsole rfl recoveryStub stubMemory_loaded⟩

/-! ## Every upgrade path -/

/-- Releases that follow one another upwards can be booted one after the other, each with nothing
but its own image in the flash. -/
theorem upgrades_boot {rs : List Release}
    (hsorted : rs.Pairwise fun r r' => r.version.toNat ≤ r'.version.toNat)
    (hchips : ∀ r ∈ rs, ∀ counter : DWord, ∃ (soc : Soc σ) (I : Image) (s : Machine (Devices σ)),
      Holds anchor soc r I s ∧ s.dev.counter = counter ∧ s.pmp.Off)
    (d : Device σ) (hfirst : ∀ r ∈ rs, d.machine.dev.counter.toNat ≤ r.version.toNat) :
    ∃ events d', Transition.Run (Step anchor) d events d' ∧
      List.Forall₂ (fun r x => ∃ s', x = .boot .kernel s' ∧ Booted r s') rs events := by
  induction rs generalizing d with
  | nil => exact ⟨[], d, .nil d, .nil⟩
  | cons r rs ih =>
      rcases List.pairwise_cons.mp hsorted with ⟨hhead, htail⟩
      rcases hchips r List.mem_cons_self d.machine.dev.counter with
        ⟨soc, I, s, hholds, hcounter, hoff⟩
      rcases hholds.boots (by rw [hcounter]; exact hfirst r List.mem_cons_self) with
        ⟨s', hboot, hbooted⟩
      have hnext : ∀ r' ∈ rs, s'.dev.counter.toNat ≤ r'.version.toNat := by
        intro r' hr'
        rw [hbooted.counter, widened_toNat]
        exact hhead r' hr'
      rcases ih htail (fun r' hr' => hchips r' (List.mem_cons_of_mem _ hr')) ⟨s', true⟩ hnext with
        ⟨events, d', hrun, hall⟩
      have hstep := Step.boot d soc s s' _ hholds.anchored hcounter hoff hboot
      exact ⟨_, d', .cons _ _ _ _ _ hstep hrun, .cons ⟨s', rfl, hbooted⟩ hall⟩

theorem loops_upgrade : ∃ events d', Transition.Run (Step loopAnchor)
    ⟨Image.atReset (fun _ => 0) 0, false⟩ events d' ∧
      List.Forall₂ (fun r x => ∃ s', x = .boot .kernel s' ∧ Booted r s')
        [selfRelease, nextRelease] events := by
  apply upgrades_boot
  · exact List.pairwise_pair.mpr (by decide)
  · intro r hr counter
    rcases List.mem_pair.mp hr with rfl | rfl
    · exact ⟨_, _, _, loopChip_holds selfRelease_manifest rfl selfLoop_verified (fun _ => 0)
        counter, rfl, Image.atReset_off _ _⟩
    · exact ⟨_, _, _, loopChip_holds nextRelease_manifest rfl nextLoop_verified (fun _ => 0)
        counter, rfl, Image.atReset_off _ _⟩
  · intro r hr
    exact Nat.zero_le _

end SecureBoot.Life
