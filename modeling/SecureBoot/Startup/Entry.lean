import SecureBoot.Startup.Steps

/-!
# Who is in `bootrom_main`

In what order the harts arrive, and what they find.
-/

namespace SecureBoot.Startup

/-! ## In what order the harts arrive -/

theorem host_of_raised {n : Nat} {s t : State} {events : List Event} (hrun : Runs n s events t)
    (hpos : 1 ≤ n) (hn : n ≤ 4095) (hinv : Inv n s) (hs : s.raised = false)
    (ht : t.raised = true) : .host ∈ events := by
  induction hrun with
  | nil s =>
      rw [hs] at ht
      cases ht
  | cons s t₁ t e events hstep hrest ih =>
      have hinv₁ := inv_step hpos hn hinv hstep
      have hkeep : t₁.raised = s.raised → .host ∈ events := fun h => ih hinv₁ (h.trans hs) ht
      cases e with
      | host => exact List.mem_cons_self
      | exec k =>
          exact List.mem_cons_of_mem _ (hkeep (taken_of_exec hn hinv hstep).2.2.raised)
      | interrupt k =>
          exact List.mem_cons_of_mem _ (hkeep (taken_of_interrupt hinv hstep).2.2.1.raised)

theorem Inv.main {n k : Nat} {s : State} (hinv : Inv n s) (hk : k < n)
    (hmain : (s.harts k).pc = BOOTROM_MAIN) :
    s.raised = true ∧ (s.harts k).mstatus.getLsbD 3 = false ∧
      (s.harts k).regs .sp = STACK_TOP ∧ Permit n s k := by
  have hpc : BOOTROM_MAIN = 34 := rfl
  cases hinv.outline k hk with
  | sleeping hat =>
      have := hat.pc
      omega
  | awake raised off hat =>
      cases hat with
      | main pc sp permit => exact ⟨raised, off, sp, permit⟩
      | _ => omega

/-- A hart in `bootrom_main` takes no more step of this text. -/
theorem main_stays {n k : Nat} {s t : State} {events : List Event} (hrun : Runs n s events t)
    (hpos : 1 ≤ n) (hn : n ≤ 4095) (hinv : Inv n s) (hmain : (s.harts k).pc = BOOTROM_MAIN) :
    t.harts k = s.harts k := by
  have hpc : BOOTROM_MAIN = 34 := rfl
  induction hrun with
  | nil s => rfl
  | cons s t₁ t e events hstep hrest ih =>
      have hsame : t₁.harts k = s.harts k := by
        cases e with
        | host =>
            rw [(hinv.host_step hpos hstep).2.1]
            exact congrFun (writeMsip_harts n s 0 1) k
        | exec i =>
            rcases taken_of_exec hn hinv hstep with ⟨_, hout, htaken⟩
            exact htaken.others k fun hki => hout (hki ▸ hmain)
        | interrupt i =>
            rcases taken_of_interrupt hinv hstep with ⟨_, hwait, htaken, _⟩
            refine htaken.others k fun hki => ?_
            rw [← hki, hmain] at hwait
            omega
      rw [← hsame]
      exact ih (inv_step hpos hn hinv hstep) (hsame ▸ hmain)

/-- In any order of the steps, no hart is in `bootrom_main` before the host has raised the first
interrupt, hart 0 has passed it on to all the others and has cleared its own. The hart is there
with its own interrupt cleared and interrupts disabled, on the one stack there is, and no step
of another hart takes it away again. -/
theorem bootrom_main_entered {n : Nat} (hpos : 1 ≤ n) (hn : n ≤ 4095) {s t : State}
    {events : List Event} (hs : PowerOn s) (hrun : Runs n s events t) {k : Nat} (hk : k < n)
    (hmain : (t.harts k).pc = BOOTROM_MAIN) :
    .host ∈ events ∧ (∀ i < n, Woken t i) ∧ Cleared (t.harts 0) ∧ t.msip 0 = false ∧
      t.msip k = false ∧ (t.harts k).mstatus.getLsbD 3 = false ∧
      (t.harts k).regs .sp = STACK_TOP ∧
      ∀ events' u, Runs n t events' u → u.harts k = t.harts k := by
  have hinv := inv_runs hpos hn hrun (inv_powerOn hs)
  rcases hinv.main hk hmain with ⟨hraised, hoff, hsp, hpermit⟩
  have hown : Cleared (t.harts k) := .inr (.inr hmain)
  have hzero : Cleared (t.harts 0) := by
    by_cases hk0 : k = 0
    · exact hk0 ▸ hown
    · exact hpermit.2 (by omega)
  have hall : AllWoken n t := by
    unfold Cleared at hzero
    have hpc : BOOTROM_MAIN = 34 := rfl
    cases hinv.outline 0 hpos with
    | sleeping hat =>
        have := hat.pc
        omega
    | awake raised off hat =>
        cases hat with
        | stack pc permit => exact permit.1 rfl
        | call pc sp permit => exact permit.1 rfl
        | main pc sp permit => exact permit.1 rfl
        | _ => omega
  refine ⟨host_of_raised hrun hpos hn (inv_powerOn hs) hs.before hraised, fun i hi => ?_, hzero,
    hinv.quiet 0 hpos hzero, hinv.quiet k hk hown, hoff, hsp, fun events' u h =>
    main_stays h hpos hn hinv hmain⟩
  by_cases hi0 : i = 0
  · exact .inr (hi0 ▸ hzero)
  · exact hall i (by omega) hi hi

def cold : State where
  harts _ :=
    { pc := HANG, regs := fun _ => 0, misa := 0, mtvec := 0, mideleg := 0, mip := 0, mie := 0,
      mstatus := 0 }
  msip _ := false
  raised := false

theorem cold_powerOn : PowerOn cold :=
  ⟨fun _ => rfl, fun _ => BitVec.getLsbD_zero, fun _ => rfl, rfl⟩

/-- Two harts from power-on to `bootrom_main`. -/
def bothHarts : List Event :=
  List.replicate 9 (.exec 0) ++ List.replicate 9 (.exec 1) ++ [.host, .interrupt 0] ++
    List.replicate 17 (.exec 0) ++ [.interrupt 1] ++ List.replicate 10 (.exec 1)

theorem bothHarts_run : ∃ t, Runs 2 cold bothHarts t ∧ (t.harts 1).pc = BOOTROM_MAIN := by
  have harrive : (bothHarts.foldlM (step 2) cold).map (fun t => (t.harts 1).pc) =
      some BOOTROM_MAIN := by decide +kernel
  rcases Option.map_eq_some_iff.mp harrive with ⟨t, hrun, hpc⟩
  exact ⟨t, Transition.run_of_foldlM hrun, hpc⟩

theorem bootrom_main_entered_second : ∃ t, (∀ i < 2, Woken t i) ∧
    (t.harts 1).regs .sp = STACK_TOP := by
  rcases bothHarts_run with ⟨t, hrun, hpc⟩
  have h := bootrom_main_entered (by decide) (by decide) cold_powerOn hrun (by decide) hpc
  exact ⟨t, h.2.1, h.2.2.2.2.2.2.1⟩

end SecureBoot.Startup
